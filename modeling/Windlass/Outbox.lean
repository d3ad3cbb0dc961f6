import Mathlib

/-!
# An outbox with one delivery at a time

Items are numbered as they are queued. The oldest waiting item is sent, one at a
time; one that fails waits for its retry before the others. The outbox is bounded:
queuing into a full one drops its oldest item. Items may also be discarded.
-/

namespace Post

inductive Attempt
  | underway | failed
deriving DecidableEq

structure Outbox (α : Type) where
  queued : List (Nat × α)
  waiting : List (Nat × α)
  current : Option ((Nat × α) × Attempt)
  attempts : List (Nat × α)
  delivered : List (Nat × α)
  dropped : List (Nat × α)
  discarded : List (Nat × α)
deriving DecidableEq

section
variable {α : Type} (o : Outbox α)

def Outbox.empty : Outbox α :=
  { queued := [], waiting := [], current := none, attempts := [], delivered := [], dropped := [],
    discarded := [] }

def Outbox.queue (limit : Nat) (o : Outbox α) (a : α) : Outbox α :=
  let item := (o.queued.length, a)
  if limit ≤ o.waiting.length then
    { o with
      queued := o.queued ++ [item]
      waiting := o.waiting.tail ++ [item]
      dropped := o.dropped ++ o.waiting.head?.toList }
  else { o with queued := o.queued ++ [item], waiting := o.waiting ++ [item] }

def Outbox.queueAll (limit : Nat) (items : List α) : Outbox α := items.foldl (Outbox.queue limit) o

def Outbox.send : Outbox α :=
  match o.current, o.waiting with
  | none, item :: rest =>
    { o with waiting := rest, current := some (item, .underway), attempts := o.attempts ++ [item] }
  | _, _ => o

def Outbox.deliver : Outbox α :=
  match o.current with
  | some (item, .underway) => { o with current := none, delivered := o.delivered ++ [item] }
  | _ => o

def Outbox.fail : Outbox α :=
  match o.current with
  | some (item, .underway) => { o with current := some (item, .failed) }
  | _ => o

def Outbox.retry : Outbox α :=
  match o.current with
  | some (item, .failed) => { o with current := none, waiting := item :: o.waiting }
  | _ => o

/-- Nothing waits any more, a retry included. -/
def Outbox.discard : Outbox α :=
  match o.current with
  | some (item, .failed) =>
    { o with current := none, waiting := [], discarded := o.discarded ++ item :: o.waiting }
  | _ => { o with waiting := [], discarded := o.discarded ++ o.waiting }

/-- The item being sent or retried, and those that wait. -/
def Outbox.held : List (Nat × α) := (o.current.map Prod.fst).toList ++ o.waiting

/-- Every item has one fate, those held are in order, and none is sent after a later
one. -/
structure Outbox.Sound : Prop where
  numbers : o.queued.map Prod.fst = List.range o.queued.length
  fates : (o.delivered ++ o.held ++ o.dropped ++ o.discarded).Perm o.queued
  order : o.held.Pairwise fun a b => a.1 < b.1
  attempted : ∀ a ∈ o.attempts, a ∈ o.queued
  sorted : o.attempts.Pairwise fun a b => a.1 ≤ b.1
  earlier : ∀ a ∈ o.attempts, ∀ b ∈ o.held, a.1 ≤ b.1

theorem sound_empty : (Outbox.empty : Outbox α).Sound where
  numbers := rfl
  fates := .nil
  order := .nil
  attempted := by simp [Outbox.empty]
  sorted := .nil
  earlier := by simp [Outbox.empty]

variable {o}

theorem Outbox.Sound.held_queued (h : o.Sound) {a : Nat × α} (ha : a ∈ o.held) : a ∈ o.queued :=
  h.fates.subset (by simp [ha])

theorem Outbox.Sound.lt_length (h : o.Sound) {a : Nat × α} (ha : a ∈ o.queued) :
    a.1 < o.queued.length := by
  have hn : a.1 ∈ o.queued.map Prod.fst := List.mem_map_of_mem ha
  rw [h.numbers] at hn
  exact List.mem_range.mp hn

/-- Once a later item has been sent, an item that was sent is held no more. -/
theorem Outbox.Sound.settled (h : o.Sound) {a b : Nat × α} (ha : a ∈ o.attempts) (hb : b ∈ o.attempts)
    (hlt : a.1 < b.1) : a ∈ o.delivered ∨ a ∈ o.dropped ∨ a ∈ o.discarded := by
  have hfate := h.fates.symm.subset (h.attempted a ha)
  simp only [List.mem_append] at hfate
  obtain ((hd | hheld) | hd) | hd := hfate
  · exact .inl hd
  · exact absurd (h.earlier b hb a hheld) (not_le.mpr hlt)
  · exact .inr (.inl hd)
  · exact .inr (.inr hd)

/-- Items that are only moved between held and settled keep the outbox sound. -/
theorem Outbox.Sound.moved {o' : Outbox α} (h : o.Sound) (hq : o'.queued = o.queued)
    (ha : o'.attempts = o.attempts)
    (hs : o'.held.Sublist o.held)
    (hf : (o'.delivered ++ o'.held ++ o'.dropped ++ o'.discarded).Perm
      (o.delivered ++ o.held ++ o.dropped ++ o.discarded)) : o'.Sound where
  numbers := hq ▸ h.numbers
  fates := hq ▸ hf.trans h.fates
  order := h.order.sublist hs
  attempted a ha' := hq ▸ h.attempted a (ha ▸ ha')
  sorted := ha ▸ h.sorted
  earlier a ha' b hb := h.earlier a (ha ▸ ha') b (hs.subset hb)

/-- An outbox that is not full takes in an item, a full one in place of its oldest. -/
theorem queue_held (limit : Nat) (a : α) : ∃ kept, kept.Sublist o.waiting ∧
    (o.queue limit a).held = (o.current.map Prod.fst).toList ++ kept ++ [(o.queued.length, a)] ∧
    (kept ++ (o.queue limit a).dropped).Perm (o.waiting ++ o.dropped) ∧
    (o.queue limit a).queued = o.queued ++ [(o.queued.length, a)] ∧
    (o.queue limit a).current = o.current ∧
    (o.queue limit a).attempts = o.attempts ∧ (o.queue limit a).delivered = o.delivered ∧
    (o.queue limit a).discarded = o.discarded := by
  unfold Outbox.queue Outbox.held
  dsimp only
  split
  · refine ⟨o.waiting.tail, List.tail_sublist _, by simp, ?_, rfl, rfl, rfl, rfl, rfl⟩
    cases hw : o.waiting with
    | nil => simp
    | cons first rest =>
      change (rest ++ (o.dropped ++ [first])).Perm (first :: (rest ++ o.dropped))
      rw [← List.append_assoc]
      exact List.perm_append_singleton first _
  · exact ⟨o.waiting, List.Sublist.refl _, by simp, List.Perm.refl _, rfl, rfl, rfl, rfl, rfl⟩

theorem Outbox.Sound.queue (h : o.Sound) (limit : Nat) (a : α) : (o.queue limit a).Sound := by
  obtain ⟨kept, hkept, hheld, hperm, hq, -, hattempts, hdelivered, hdiscarded⟩ := @queue_held α o limit a
  have hsub : ((o.current.map Prod.fst).toList ++ kept).Sublist o.held :=
    (List.Sublist.refl _).append hkept
  have hnew : ∀ b ∈ o.queued, b.1 < o.queued.length := fun b hb => h.lt_length hb
  refine ⟨?_, ?_, ?_, ?_, ?_, ?_⟩
  · rw [hq, List.map_append, h.numbers, List.length_append]
    exact List.range_succ.symm
  · rw [hdelivered, hheld, hdiscarded, hq]
    have hfates := h.fates
    unfold Outbox.held at hfates
    simp only [← Multiset.coe_eq_coe, ← Multiset.coe_add] at hfates hperm ⊢
    calc (o.delivered : Multiset (Nat × α)) +
      ((o.current.map Prod.fst).toList + kept + [(o.queued.length, a)]) +
          (o.queue limit a).dropped + o.discarded
      _ = o.delivered + ((o.current.map Prod.fst).toList) + o.discarded +
      (kept + (o.queue limit a).dropped) +
          [(o.queued.length, a)] := by abel
      _ = o.delivered + ((o.current.map Prod.fst).toList + o.waiting) + o.dropped + o.discarded +
          [(o.queued.length, a)] := by rw [hperm]; abel
      _ = o.queued + [(o.queued.length, a)] := by rw [hfates]
  · rw [hheld]
    refine List.pairwise_append.mpr ⟨h.order.sublist hsub, List.pairwise_singleton _ _,
      fun b hb c hc => ?_⟩
    rw [List.mem_singleton.mp hc]
    exact hnew b (h.held_queued (hsub.subset hb))
  · rw [hattempts, hq]
    exact fun b hb => List.mem_append_left _ (h.attempted b hb)
  · rw [hattempts]
    exact h.sorted
  · rw [hattempts, hheld]
    intro b hb c hc
    obtain hc | hc := List.mem_append.mp hc
    · exact h.earlier b hb c (hsub.subset hc)
    · rw [List.mem_singleton.mp hc]
      exact le_of_lt (hnew b (h.attempted b hb))

theorem Outbox.Sound.queueAll (h : o.Sound) (limit : Nat) (items : List α) :
    (o.queueAll limit items).Sound := by
  induction items generalizing o with
  | nil => exact h
  | cons a items ih => exact ih (h.queue limit a)

theorem Outbox.Sound.send (h : o.Sound) : o.send.Sound := by
  unfold Outbox.send
  split
  · next item rest hc hw =>
    have hheld : o.held = item :: rest := by simp [Outbox.held, hc, hw]
    have hitem : item ∈ o.held := by simp [hheld]
    refine ⟨h.numbers, ?_, ?_, ?_, ?_, ?_⟩
    · change (o.delivered ++ (item :: rest) ++ o.dropped ++ o.discarded).Perm o.queued
      rw [← hheld]
      exact h.fates
    · change (item :: rest).Pairwise _
      rw [← hheld]
      exact h.order
    · intro a ha
      obtain ha | ha := List.mem_append.mp ha
      · exact h.attempted a ha
      · rw [List.mem_singleton.mp ha]
        exact h.held_queued hitem
    · refine List.pairwise_append.mpr ⟨h.sorted, List.pairwise_singleton _ _, fun a ha b hb => ?_⟩
      rw [List.mem_singleton.mp hb]
      exact h.earlier a ha item hitem
    · intro a ha b hb
      change b ∈ item :: rest at hb
      obtain ha | ha := List.mem_append.mp ha
      · exact h.earlier a ha b (hheld ▸ hb)
      · rw [List.mem_singleton.mp ha]
        have horder := h.order
        rw [hheld] at horder
        obtain rfl | hb := List.mem_cons.mp hb
        · exact le_refl _
        · exact le_of_lt ((List.pairwise_cons.mp horder).1 b hb)
  · exact h

theorem Outbox.Sound.deliver (h : o.Sound) : o.deliver.Sound := by
  unfold Outbox.deliver
  split
  · next item hc =>
    have hheld : o.held = item :: o.waiting := by simp [Outbox.held, hc]
    refine h.moved rfl rfl ?_ ?_
    · rw [hheld]
      exact List.sublist_cons_self item o.waiting
    · rw [hheld]
      change ((o.delivered ++ [item]) ++ o.waiting ++ o.dropped ++ o.discarded).Perm _
      simp
  · exact h

theorem Outbox.Sound.fail (h : o.Sound) : o.fail.Sound := by
  unfold Outbox.fail
  split
  · next item hc =>
    have hheld : ({ o with current := some (item, .failed) } : Outbox α).held = o.held := by
      simp [Outbox.held, hc]
    refine h.moved rfl rfl ?_ ?_
    · rw [hheld]
    · rw [hheld]
  · exact h

theorem Outbox.Sound.retry (h : o.Sound) : o.retry.Sound := by
  unfold Outbox.retry
  split
  · next item hc =>
    have hheld : ({ o with current := none, waiting := item :: o.waiting } : Outbox α).held = o.held := by
      simp [Outbox.held, hc]
    refine h.moved rfl rfl ?_ ?_
    · rw [hheld]
    · rw [hheld]
  · exact h

theorem Outbox.Sound.discard (h : o.Sound) : o.discard.Sound := by
  unfold Outbox.discard
  split
  · next item hc =>
    have hheld : o.held = item :: o.waiting := by simp [Outbox.held, hc]
    refine h.moved rfl rfl (List.nil_sublist _) ?_
    rw [hheld]
    change (o.delivered ++ [] ++ o.dropped ++ (o.discarded ++ item :: o.waiting)).Perm _
    simp only [← Multiset.coe_eq_coe, ← Multiset.coe_add, Multiset.coe_nil]
    abel
  · refine h.moved rfl rfl ((List.Sublist.refl _).append (List.nil_sublist _)) ?_
    change (o.delivered ++ ((o.current.map Prod.fst).toList ++ []) ++ o.dropped ++
      (o.discarded ++ o.waiting)).Perm
      (o.delivered ++ ((o.current.map Prod.fst).toList ++ o.waiting) ++ o.dropped ++ o.discarded)
    simp only [← Multiset.coe_eq_coe, ← Multiset.coe_add, Multiset.coe_nil]
    abel

/-- The bound on what waits, where it is bounded at all. -/
theorem queueAll_length {limit : Nat} (hl : 0 < limit) (items : List α) :
    (o.queueAll limit items).waiting.length ≤ max limit o.waiting.length := by
  induction items generalizing o with
  | nil => exact le_max_right _ _
  | cons a items ih =>
    refine (@ih (o.queue limit a)).trans ?_
    unfold Outbox.queue
    dsimp only
    split
    · rw [List.length_append, List.length_tail, List.length_singleton]
      omega
    · rw [List.length_append, List.length_singleton]
      omega

end

end Post
