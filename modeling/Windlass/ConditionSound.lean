import Windlass.Notifications

/-!
# Conditions and their grace

A condition is raised at the first active step that comes a grace period or more
after an active step with no clear step since, and stands raised until it is
clear. The history of a condition is the list of its steps, the last at the end.
-/

namespace Windlass

abbrev StatusAt := Instant × Status

def Status.isClear : Status → Bool
  | .clear _ => true
  | .active _ | .unchanged => false

/-! ## Histories -/

section
variable (condition : Condition)

/-- An active step at least the grace period before has been followed by no clear one. -/
def Condition.Held (past : List StatusAt) (now : Instant) : Prop :=
  ∃ before since notice after, past = before ++ (since, .active notice) :: after ∧
    (∀ s ∈ after, s.2.isClear = false) ∧ since + condition.grace ≤ now

def Condition.Ripe (past : List StatusAt) : Prop :=
  ∃ before now notice, past = before ++ [(now, .active notice)] ∧ condition.Held past now

/-- The history was ripe at some step, and no step since was clear. -/
def Condition.Standing (past : List StatusAt) : Prop :=
  ∃ before after, past = before ++ after ∧ condition.Ripe before ∧ ∀ s ∈ after, s.2.isClear = false

variable {condition} {past : List StatusAt} {at' now : Instant} {status : Status} {notice : Notice}

theorem not_held_nil : ¬ condition.Held [] now := by
  rintro ⟨before, since, notice, after, h, -⟩
  exact List.append_ne_nil_of_right_ne_nil before (List.cons_ne_nil _ _) h.symm

theorem held_append {later : List StatusAt} (h : condition.Held past now)
    (hl : ∀ s ∈ later, s.2.isClear = false) :
    condition.Held (past ++ later) now := by
  obtain ⟨before, since, notice, after, rfl, hafter, hle⟩ := h
  refine ⟨before, since, notice, after ++ later, by simp, fun s hs => ?_, hle⟩
  obtain hs | hs := List.mem_append.mp hs
  · exact hafter s hs
  · exact hl s hs

theorem held_snoc : condition.Held (past ++ [(at', status)]) now ↔
    (∃ notice, status = .active notice ∧ at' + condition.grace ≤ now) ∨
      status.isClear = false ∧ condition.Held past now := by
  constructor
  · rintro ⟨before, since, notice, after, h, hafter, hle⟩
    obtain rfl | ⟨after, s, rfl⟩ := List.eq_nil_or_concat' after
    · obtain ⟨-, hlast⟩ := List.append_inj' h rfl
      cases hlast
      exact .inl ⟨notice, rfl, hle⟩
    · rw [← List.cons_append, ← List.append_assoc] at h
      obtain ⟨rfl, hlast⟩ := List.append_inj' h rfl
      cases hlast
      refine .inr ⟨hafter _ (List.mem_append_right _ (List.mem_singleton_self _)), ?_⟩
      exact ⟨before, since, notice, after, rfl, fun s hs => hafter s (List.mem_append_left _ hs), hle⟩
  · rintro (⟨notice, rfl, hle⟩ | ⟨hs, h⟩)
    · exact ⟨past, at', notice, [], rfl, List.forall_mem_nil _, hle⟩
    · exact held_append h fun s hs' => by rwa [List.mem_singleton.mp hs']

theorem ripe_snoc : condition.Ripe (past ++ [(at', status)]) ↔
    ∃ notice, status = .active notice ∧ condition.Held (past ++ [(at', status)]) at' := by
  constructor
  · rintro ⟨before, now, notice, h, hheld⟩
    obtain ⟨-, hlast⟩ := List.append_inj' h rfl
    cases hlast
    exact ⟨notice, rfl, hheld⟩
  · rintro ⟨notice, rfl, hheld⟩
    exact ⟨past, at', notice, rfl, hheld⟩

theorem standing_snoc : condition.Standing (past ++ [(at', status)]) ↔
    condition.Ripe (past ++ [(at', status)]) ∨ status.isClear = false ∧ condition.Standing past := by
  constructor
  · rintro ⟨before, after, h, hripe, hafter⟩
    obtain rfl | ⟨after, s, rfl⟩ := List.eq_nil_or_concat' after
    · rw [List.append_nil] at h
      exact .inl (h ▸ hripe)
    · rw [← List.append_assoc] at h
      obtain ⟨rfl, hlast⟩ := List.append_inj' h rfl
      cases hlast
      refine .inr ⟨hafter _ (List.mem_append_right _ (List.mem_singleton_self _)), ?_⟩
      exact ⟨before, after, rfl, hripe, fun s hs => hafter s (List.mem_append_left _ hs)⟩
  · rintro (h | ⟨hs, before, after, rfl, hripe, hafter⟩)
    · exact ⟨_, [], (List.append_nil _).symm, h, List.forall_mem_nil _⟩
    · refine ⟨before, after ++ [(at', status)], List.append_assoc .., hripe, fun s hs' => ?_⟩
      obtain hs' | hs' := List.mem_append.mp hs'
      · exact hafter s hs'
      · rwa [List.mem_singleton.mp hs']

theorem standing_held (h : condition.Standing past) : ∃ now, condition.Held past now := by
  obtain ⟨before, after, rfl, ⟨_, now, _, -, hheld⟩, hafter⟩ := h
  exact ⟨now, held_append hheld hafter⟩

end

/-! ## Tracking -/

def Condition.Stands (condition : Condition) (past : List StatusAt) : Option Phase → Prop
  | none => ∀ now, ¬ condition.Held past now
  | some (.pending since) =>
    ¬ condition.Standing past ∧ (∀ now, condition.Held past now ↔ since + condition.grace ≤ now) ∧
      ∃ s ∈ past, s.1 = since
  | some .raised => condition.Standing past

section
variable {condition : Condition} {past : List StatusAt} {at' : Instant} {status : Status}
  {n : Notifications}

theorem Condition.Stands.raised_iff {phase : Option Phase} (h : condition.Stands past phase) :
    phase = some .raised ↔ condition.Standing past := by
  match phase, h with
  | none, h =>
    refine iff_of_false nofun fun hs => ?_
    obtain ⟨now, hheld⟩ := standing_held hs
    exact h now hheld
  | some (.pending since), h => exact iff_of_false nofun h.1
  | some .raised, h => exact iff_of_true rfl h

/-- What a step gives: a raise where the history first is ripe, and the words of a
clear step where the condition stands. -/
def Condition.Gives (condition : Condition) (past : List StatusAt) (at' : Instant) (status : Status)
    (notice : Notice) :
    Prop :=
  (status = .active notice ∧ condition.Ripe (past ++ [(at', status)]) ∧ ¬ condition.Standing past) ∨
    status = .clear (some notice) ∧ condition.Standing past

theorem gives_active {told notice : Notice} : condition.Gives past at' (.active told) notice ↔
    told = notice ∧ condition.Ripe (past ++ [(at', .active told)]) ∧ ¬ condition.Standing past := by
  unfold Condition.Gives
  constructor
  · rintro (⟨h, hripe⟩ | ⟨h, -⟩)
    · cases h
      exact ⟨rfl, hripe⟩
    · cases h
  · rintro ⟨rfl, hripe⟩
    exact .inl ⟨rfl, hripe⟩

theorem ripe_active {notice : Notice} : condition.Ripe (past ++ [(at', .active notice)]) ↔
    condition.grace = 0 ∨ condition.Held past at' := by
  rw [ripe_snoc, held_snoc]
  constructor
  · rintro ⟨_, -, ⟨_, -, hle⟩ | ⟨-, h⟩⟩
    · exact .inl (Nat.le_zero.mp (Nat.le_of_add_le_add_left hle))
    · exact .inr h
  · rintro (h | h)
    · exact ⟨notice, rfl, .inl ⟨notice, rfl, by rw [h, Nat.add_zero]⟩⟩
    · exact ⟨notice, rfl, .inr ⟨rfl, h⟩⟩

/-- After a clear step the condition is untracked, and was told of if it stood. -/
theorem track_clear (h : condition.Stands past n.conditions[condition]?) (words : Option Notice) :
    condition.Stands (past ++
      [(at', .clear words)]) (n.track at' condition (.clear words)).1.conditions[condition]? ∧
      ∀ notice, (n.track at' condition (.clear words)).2 = some notice ↔
        condition.Gives past at' (.clear words) notice := by
  have hheld : ∀ now, ¬ condition.Held (past ++ [(at', .clear words)]) now := by
    intro now hh
    obtain ⟨_, hs, -⟩ | ⟨hs, -⟩ := held_snoc.mp hh
    · cases hs
    · cases hs
  have hgives (notice : Notice) : condition.Gives past at' (.clear words) notice ↔
      words = some notice ∧ condition.Standing past := by
    simp [Condition.Gives]
  simp only [hgives, ← h.raised_iff]
  unfold Notifications.track
  cases hphase : n.conditions[condition]? with
  | none =>
    refine ⟨?_, fun notice => iff_of_false nofun fun hs => nomatch hs.2⟩
    rw [hphase]
    exact hheld
  | some phase =>
    cases phase with
    | pending since =>
      refine ⟨?_, fun notice => iff_of_false nofun fun hs => nomatch hs.2⟩
      rw [Std.ExtTreeMap.getElem?_erase_self]
      exact hheld
    | raised =>
      refine ⟨?_, fun notice => (and_iff_left rfl).symm⟩
      rw [Std.ExtTreeMap.getElem?_erase_self]
      exact hheld

theorem track_unchanged (h : condition.Stands past n.conditions[condition]?) :
    condition.Stands (past ++
      [(at', .unchanged)]) (n.track at' condition .unchanged).1.conditions[condition]? ∧
      ∀ notice, (n.track at' condition .unchanged).2 = some notice ↔
        condition.Gives past at' .unchanged notice := by
  have hheld (now : Instant) :
      condition.Held (past ++ [(at', .unchanged)]) now ↔ condition.Held past now := by
    rw [held_snoc]
    simp [Status.isClear]
  have hstanding : condition.Standing (past ++ [(at', .unchanged)]) ↔ condition.Standing past := by
    rw [standing_snoc, ripe_snoc]
    simp [Status.isClear]
  have hsame : n.track at' condition .unchanged = (n, none) := by
    unfold Notifications.track
    cases n.conditions[condition]? with
    | none => rfl
    | some phase => cases phase <;> rfl
  rw [hsame]
  refine ⟨?_, fun notice => iff_of_false nofun ?_⟩
  · match n.conditions[condition]?, h with
    | none, h => exact fun now => (hheld now).not.mpr (h now)
    | some (.pending since), ⟨hs, hh, s, hmem, hsince⟩ =>
      exact ⟨hstanding.not.mpr hs, fun now => (hheld now).trans (hh now), s,
        List.mem_append_left _ hmem, hsince⟩
    | some .raised, h => exact hstanding.mpr h
  · rintro (⟨hs, -⟩ | ⟨hs, -⟩) <;> cases hs

/-- An active step raises the condition, starts its grace or leaves it as it is. -/
theorem track_active (h : condition.Stands past n.conditions[condition]?) (ht : ∀ s ∈ past, s.1 ≤ at')
    (told : Notice) :
    condition.Stands (past ++
      [(at', .active told)]) (n.track at' condition (.active told)).1.conditions[condition]? ∧
      ∀ notice, (n.track at' condition (.active told)).2 = some notice ↔
        condition.Gives past at' (.active told) notice := by
  have hstanding : condition.Standing (past ++ [(at', .active told)]) ↔
      (condition.grace = 0 ∨ condition.Held past at') ∨ condition.Standing past := by
    rw [standing_snoc, ripe_active]
    simp [Status.isClear]
  have hheld (now : Instant) : condition.Held (past ++ [(at', .active told)]) now ↔
      at' + condition.grace ≤ now ∨ condition.Held past now := by
    rw [held_snoc]
    simp [Status.isClear]
  simp only [gives_active, ripe_active, ← h.raised_iff]
  unfold Notifications.track
  -- the condition is clear, pending or raised before the step
  cases hphase : n.conditions[condition]? with
  | none =>
    rw [hphase] at h
    dsimp only
    split
    · next hg =>
      refine ⟨?_, fun notice => ?_⟩
      · rw [Std.ExtTreeMap.getElem?_insert_self]
        exact hstanding.mpr (.inl (.inl hg))
      · simp [hg]
    · next hg =>
      have hnot : ¬ (condition.grace = 0 ∨ condition.Held past at') := not_or.mpr ⟨hg, h at'⟩
      refine ⟨?_, fun notice => iff_of_false nofun fun hs => hnot hs.2.1⟩
      rw [Std.ExtTreeMap.getElem?_insert_self]
      refine ⟨hstanding.not.mpr (not_or.mpr ⟨hnot, fun hs => ?_⟩), fun now => ?_,
        (at', .active told), ?_, rfl⟩
      · obtain ⟨now, hh⟩ := standing_held hs
        exact h now hh
      · exact (hheld now).trans (or_iff_left (h now))
      · exact List.mem_append_right _ (List.mem_singleton_self _)
  | some phase =>
    rw [hphase] at h
    cases phase with
    | pending since =>
      obtain ⟨hs, hh, s, hmem, rfl⟩ := h
      have hle : s.1 ≤ at' := ht s hmem
      dsimp only
      split
      · next hg =>
        have hripe : condition.Held past at' :=
          (hh at').mpr (Nat.add_comm .. ▸ Nat.add_le_of_le_sub hle hg)
        refine ⟨?_, fun notice => ?_⟩
        · rw [Std.ExtTreeMap.getElem?_insert_self]
          exact hstanding.mpr (.inl (.inr hripe))
        · simp [hripe]
      · next hg =>
        have hnot : ¬ (condition.grace = 0 ∨ condition.Held past at') := by
          rintro (h | h)
          · exact hg (h ▸ Nat.zero_le _)
          · exact hg (Nat.le_sub_of_add_le' ((hh at').mp h))
        refine ⟨?_, fun notice => iff_of_false nofun fun hs => hnot hs.2.1⟩
        rw [hphase]
        refine ⟨hstanding.not.mpr (not_or.mpr ⟨hnot, hs⟩), fun now => ?_, s,
          List.mem_append_left _ hmem, rfl⟩
        rw [hheld, hh]
        exact or_iff_right_of_imp fun h => (Nat.add_le_add_right hle _).trans h
    | raised =>
      refine ⟨?_, fun notice => iff_of_false nofun fun hs => hs.2.2 rfl⟩
      rw [hphase]
      exact hstanding.mpr (.inr h)

theorem track_stands (h : condition.Stands past n.conditions[condition]?) (ht : ∀ s ∈ past, s.1 ≤ at')
    (status : Status) :
    condition.Stands (past ++ [(at', status)]) (n.track at' condition status).1.conditions[condition]? ∧
      ∀ notice, (n.track at' condition status).2 = some notice ↔
      condition.Gives past at' status notice := by
  cases status with
  | active told => exact track_active h ht told
  | clear words => exact track_clear h words
  | unchanged => exact track_unchanged h

end

/-! ## Tellings -/

/-- What the user is told of a condition: that it is there, or, with or without words,
that it is gone. -/
inductive Telling
  | raise (notice : Notice)
  | clear (words : Option Notice)

def Telling.words : Telling → Option Notice
  | .raise notice => some notice
  | .clear words => words

/-- Raise, clear, raise, clear, and so on, from a condition raised or not. -/
def Alternates : (raised : Prop) → List Telling → Prop
  | _, [] => True
  | raised, .raise _ :: rest => ¬ raised ∧ Alternates True rest
  | raised, .clear _ :: rest => raised ∧ Alternates False rest

def Notifications.telling (n : Notifications) (condition : Condition) (s : StatusAt) : Option Telling :=
  match s.2, n.conditions[condition]? with
  | .active _, _ => (n.track s.1 condition s.2).2.map .raise
  | .clear words, some .raised => some (.clear words)
  | _, _ => none

def Notifications.follow (n : Notifications) (condition : Condition) : List StatusAt → Notifications
  | [] => n
  | s :: steps => (n.track s.1 condition s.2).1.follow condition steps

def Notifications.told (n : Notifications) (condition : Condition) : List StatusAt → List Notice
  | [] => []
  | s :: steps =>
    (n.track s.1 condition s.2).2.toList ++ (n.track s.1 condition s.2).1.told condition steps

/-- The user was told that the condition is there, and not that it is gone. -/
def Notifications.Raised (n : Notifications) (condition : Condition) : Prop :=
  n.conditions[condition]? = some .raised

def Notifications.tellings (n : Notifications) (condition : Condition) : List StatusAt → List Telling
  | [] => []
  | s :: steps => (n.telling condition s).toList ++ (n.track s.1 condition s.2).1.tellings condition steps

section
variable {condition : Condition} {n : Notifications}

/-- What a telling says of the condition before and after its step, and of the notice given. -/
theorem telling_cases (condition : Condition) (n : Notifications) (s : StatusAt) :
    (n.telling condition s = none ∧ (n.track s.1 condition s.2).2 = none ∧
        ((n.track s.1 condition s.2).1.Raised condition ↔ n.Raised condition)) ∨
      (∃ notice, n.telling condition s = some (.raise notice) ∧
        (n.track s.1 condition s.2).2 = some notice ∧
        ¬ n.Raised condition ∧ (n.track s.1 condition s.2).1.Raised condition) ∨
      ∃ words, n.telling condition s = some (.clear words) ∧ (n.track s.1 condition s.2).2 = words ∧
        n.Raised condition ∧ ¬ (n.track s.1 condition s.2).1.Raised condition := by
  obtain ⟨at', status⟩ := s
  unfold Notifications.Raised Notifications.telling Notifications.track
  -- only a clear condition that turns active, and a raised one that turns clear, say anything
  cases status with
  | active notice =>
    cases hphase : n.conditions[condition]? with
    | none =>
      dsimp only
      split
      · exact .inr (.inl ⟨notice, rfl, rfl, nofun, Std.ExtTreeMap.getElem?_insert_self⟩)
      · refine .inl ⟨rfl, rfl, iff_of_false ?_ nofun⟩
        rw [Std.ExtTreeMap.getElem?_insert_self]
        nofun
    | some phase =>
      cases phase with
      | pending since =>
        dsimp only
        split
        · exact .inr (.inl ⟨notice, rfl, rfl, nofun, Std.ExtTreeMap.getElem?_insert_self⟩)
        · exact .inl ⟨rfl, rfl, by rw [hphase]⟩
      | raised => exact .inl ⟨rfl, rfl, by rw [hphase]⟩
  | clear words =>
    cases hphase : n.conditions[condition]? with
    | none => exact .inl ⟨rfl, rfl, by rw [hphase]⟩
    | some phase =>
      cases phase with
      | pending since =>
        refine .inl ⟨rfl, rfl, iff_of_false ?_ nofun⟩
        rw [Std.ExtTreeMap.getElem?_erase_self]
        nofun
      | raised =>
        refine .inr (.inr ⟨words, rfl, rfl, rfl, ?_⟩)
        rw [Std.ExtTreeMap.getElem?_erase_self]
        nofun
  | unchanged =>
    cases hphase : n.conditions[condition]? with
    | none => exact .inl ⟨rfl, rfl, by rw [hphase]⟩
    | some phase => exact .inl ⟨rfl, by cases phase <;> rfl, by cases phase <;> rw [hphase]⟩

theorem tellings_alternate (steps : List StatusAt) :
    Alternates (n.Raised condition) (n.tellings condition steps) := by
  -- from any notifications on, as the first telling depends on what is raised
  induction steps generalizing n with
  | nil => trivial
  | cons s steps ih =>
    have hrest := @ih (n.track s.1 condition s.2).1
    unfold Notifications.tellings
    obtain ⟨hc, -, hr⟩ | ⟨notice, hc, -, hr, hr'⟩ | ⟨words, hc, -, hr, hr'⟩ := telling_cases condition n s
    · rw [hc]
      rwa [propext hr] at hrest
    · rw [hc]
      rw [eq_true hr'] at hrest
      exact ⟨hr, hrest⟩
    · rw [hc]
      rw [eq_false hr'] at hrest
      exact ⟨hr, hrest⟩

theorem told_tellings (steps : List StatusAt) :
    n.told condition steps = (n.tellings condition steps).filterMap Telling.words := by
  induction steps generalizing n with
  | nil => rfl
  | cons s steps ih =>
    unfold Notifications.told Notifications.tellings
    rw [List.filterMap_append, ih]
    congr 1
    obtain ⟨hc, ht, -⟩ | ⟨notice, hc, ht, -⟩ | ⟨words, hc, ht, -⟩ := telling_cases condition n s
    · rw [hc, ht]
      rfl
    · rw [hc, ht]
      rfl
    · rw [hc, ht]
      cases words <;> rfl

theorem follow_append (past later : List StatusAt) :
    n.follow condition (past ++ later) = (n.follow condition past).follow condition later := by
  induction past generalizing n with
  | nil => rfl
  | cons s past ih => exact ih

/-- Followed from untracked, the phase of a condition stands for its history. -/
theorem follow_stands (hn : n.conditions[condition]? = none) {past : List StatusAt}
    (hp : past.Pairwise fun s t => s.1 ≤ t.1) :
    condition.Stands past (n.follow condition past).conditions[condition]? := by
  induction past using List.reverseRecOn with
  | nil =>
    unfold Notifications.follow
    rw [hn]
    exact fun now => not_held_nil
  | append_singleton past s ih =>
    obtain ⟨hpast, -, ht⟩ := List.pairwise_append.mp hp
    rw [follow_append]
    exact (track_stands (ih hpast) (fun t hmem => ht t hmem s (List.mem_singleton_self _)) s.2).1

/-- Of every condition untracked before, the user is told in turn that it is there and that
it is gone: that it is there at the first active step to find it held for its grace. -/
theorem conditions_tracked (condition : Condition) (n : Notifications) (steps : List StatusAt)
    (hn : n.conditions[condition]? = none) (hp : steps.Pairwise fun s t => s.1 ≤ t.1) :
    Alternates False (n.tellings condition steps) ∧
      n.told condition steps = (n.tellings condition steps).filterMap Telling.words ∧
      ∀ past at' status later, steps = past ++ (at', status) :: later →
        (∀ notice, ((n.follow condition past).track at' condition status).2 = some notice ↔
            condition.Gives past at' status notice) ∧
          ((n.follow condition past).Raised condition ↔ condition.Standing past) := by
  refine ⟨?_, told_tellings steps, fun past at' status later h => ?_⟩
  · have halternate := @tellings_alternate condition n steps
    rwa [Notifications.Raised, hn, eq_false (show none ≠ some Phase.raised from nofun)] at halternate
  · rw [h] at hp
    obtain ⟨hpast, -, ht⟩ := List.pairwise_append.mp hp
    have hs := follow_stands hn hpast
    exact ⟨(track_stands hs (fun t hmem => ht t hmem _ List.mem_cons_self) status).2, hs.raised_iff⟩

/-- The registry cannot be saved for two minutes, and then is: told of after the two minutes
and at the save, and not in between. -/
theorem registry_unsaved_told :
    let steps : List StatusAt := [(0, .active .registryNotSaved), (1, .unchanged),
      (Duration.fromMins 2, .active .registryNotSaved),
      (Duration.fromMins 3, .clear (some .registrySaved))]
    Notifications.new.told .registrySave steps = [.registryNotSaved, .registrySaved] ∧
      Alternates False (Notifications.new.tellings .registrySave steps) ∧
      Condition.registrySave.Gives [(0, .active .registryNotSaved), (1, .unchanged)] (Duration.fromMins 2)
        (.active .registryNotSaved) .registryNotSaved := by
  intro steps
  obtain ⟨halternate, -, hsteps⟩ :=
    conditions_tracked .registrySave Notifications.new steps rfl (by decide)
  have hgives := hsteps [(0, .active .registryNotSaved), (1, .unchanged)] (Duration.fromMins 2)
    (.active .registryNotSaved) [(Duration.fromMins 3, .clear (some .registrySaved))] rfl
  exact ⟨by decide, halternate, (hgives.1 .registryNotSaved).mp (by decide)⟩

end

end Windlass
