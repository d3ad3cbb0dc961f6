import Windlass.AccountSound

/-!
# The IP is looked up first, and no more than once a minute

Every lookup and the start of MAM work set the time from which the next lookup
is spaced, and nothing else does. The cookie is used only once MAM has shown the
IP it sees, so no request of any kind comes before the first lookup.
-/

namespace Windlass

/-! ## One step -/

def Event.isEnable : Event → Bool
  | .mam .enable => true
  | _ => false

def isLookup (sent : MamRequest × Option ApiCookie) : Bool := sent.1 = .lookUpIp

def lookups (out : List Action) : List (MamRequest × Option ApiCookie) := (requests out).filter isLookup

theorem acquisition_not_lookup (next : Next) : acquisitionRequest next ≠ some .lookUpIp := by
  cases next <;> simp [acquisitionRequest]

theorem wanted_lookup {m : Mam} {now : ClockReading} {reserve : Option Points} {plan : Plan}
    (h : m.wanted now reserve plan = some (.request .lookUpIp)) : m.network.due now.monotonic := by
  obtain ⟨-, hd⟩ | ⟨-, -, ⟨_, h, -⟩ | ⟨_, h, -⟩ | ⟨_, _, h, -⟩ | h | h⟩ := wanted_cases h
  · exact hd
  · cases h
  · cases h
  · cases h
  · exact absurd h (acquisition_not_lookup _)
  · exact absurd h (acquisition_not_lookup _)

theorem due_spaced {n : Network} {now last : Instant} (h : n.due now) (hl : n.lastSent = some last) :
    last + lookupSpacing ≤ now := by
  simp only [Network.due, hl, Option.all_some, Bool.and_eq_true, decide_eq_true_eq] at h
  exact Instant.add_le_of_durationSince (by decide) h.2

section
variable (c : Core) (now : ClockReading) (event : Event)

theorem received_lastSent : (c.received now event).mam.network.lastSent =
    if event.isEnable then some now.monotonic else c.mam.network.lastSent := by
  by_cases he : event = .mam .enable
  · subst he
    rw [received_mam]
    rfl
  · have hn : event.isEnable = false := by
      unfold Event.isEnable
      split
      · exact absurd rfl he
      · rfl
    rw [hn, if_neg Bool.false_ne_true]
    obtain h | ⟨h, -⟩ | ⟨-, h⟩ := (received_receives c now event).network
    · rw [h]
      unfold Network.answered
      split <;> rfl
    · exact absurd h he
    · rw [h]
      rfl

theorem prepared_lastSent :
    (c.prepared now event).network.lastSent = (c.received now event).mam.network.lastSent := by
  have hn : (c.prepared now event).network = (c.surveyed now event).network := by
    rw [prepared_eq]
    rfl
  obtain ⟨h, -⟩ | ⟨h, -⟩ := surveyed_network c now event
  · rw [hn, h]
  · rw [hn, h]
    rfl

theorem sentAtOnce_lookups : (c.mam.sentAtOnce event).filter isLookup = [] := by
  rw [List.filter_eq_nil_iff]
  rintro ⟨request, cookie⟩ hp
  rw [sentAtOnce_register hp]
  simp [isLookup]

theorem recordSent_lastSent (m : Mam) {request : MamRequest} (h : request ≠ .lookUpIp)
    (registry : Registry) :
    (m.recordSent now request registry).network.lastSent = m.network.lastSent := by
  cases request with
  | lookUpIp => exact absurd rfl h
  | _ => rfl

/-- Either no IP is looked up and the time of the last lookup stays, or one is,
at least a minute after it. -/
theorem lookup_step :
    (lookups (c.handle now event).2 = [] ∧
      (c.handle now event).1.mam.network.lastSent = (c.received now event).mam.network.lastSent) ∨
    ∃ sent, lookups (c.handle now event).2 = [sent] ∧
      (c.handle now event).1.mam.network.lastSent = some now.monotonic ∧
      ∀ last, (c.received now event).mam.network.lastSent = some last →
      last + lookupSpacing ≤ now.monotonic := by
  unfold lookups
  obtain ⟨hr, budget, slot, wake, hm⟩ | ⟨request, hw, hr, budget, slot, wake, hm⟩ :=
    handle_recorded c now event
  · left
    rw [hr, sentAtOnce_lookups, hm]
    exact ⟨rfl, prepared_lastSent c now event⟩
  · rw [hr, hm]
    by_cases hl : request = .lookUpIp
    · right
      subst hl
      refine ⟨_, rfl, rfl, ?_⟩
      intro last hlast
      rw [← prepared_lastSent] at hlast
      exact due_spaced (wanted_lookup hw) hlast
    · left
      refine ⟨by simp [isLookup, hl], ?_⟩
      exact (recordSent_lastSent now _ hl _).trans (prepared_lastSent c now event)

variable {c now event} in
theorem attempt_seen (h : attempts (c.handle now event).2 ≠ []) :
    (c.prepared now event).network.current.isSome := by
  rw [handle_attempts, dispatch_attempts, List.nil_append] at h
  unfold Core.sending at h
  obtain hs | ⟨-, -, ⟨cookie, budget, hw, -⟩ | ⟨request, budget, -, hs⟩⟩ :=
    send_cases (c.prepared now event) now
    (c.received now event).context (c.planned now event)
  · rw [hs] at h
    exact absurd rfl h
  · have hr := wanted_register hw
    simp only [Seedbox.wanted, Bool.and_eq_true] at hr
    exact hr.1.1.1
  · rw [hs] at h
    exact absurd rfl h

theorem received_hosts (h : (c.received now event).mam.hosts = .configured) :
    c.mam.hosts = .configured ∨ event.isEnable := by
  rw [received_mam] at h
  cases event with
  | mam e =>
    rw [dispatch_mam_eq] at h
    cases e with
    | enable => exact .inr rfl
    | ratioUseChecked =>
      simp only [Mam.handle] at h
      rw [ratioUseChecked_frame] at h
      exact .inl h
    | registrationAttemptSaved =>
      simp only [Mam.handle, Mam.registrationAttemptSaved] at h
      split at h
      · split at h <;> exact .inl h
      · exact .inl h
    | registrationAttemptSaveFailed =>
      simp only [Mam.handle, Mam.registrationAttemptSaveFailed] at h
      split at h <;> exact .inl h
    | answered result rotated =>
      simp only [Mam.handle, Mam.requestAnswered] at h
      split at h
      · dsimp only at h
        rw [answered_frame] at h
        exact .inl h
      · exact .inl h
    | _ => exact .inl h
  | _ =>
    left
    rw [(dispatch_nudged (c.note _) now (by intro e he; cases he)).frame] at h
    exact h

end

/-! ## Whole runs -/

def Handled.looks (e : Handled) : List Instant :=
  (if e.input.event.isEnable then [e.time] else []) ++ (lookups e.out).map fun _ => e.time

/-- The times at which MAM work is started and the IP looked up, in order. -/
def lookupTimes (run : List Handled) : List Instant := run.flatMap Handled.looks

theorem lookupTimes_snoc (tr : List Handled) (e : Handled) :
    lookupTimes (tr ++ [e]) = lookupTimes tr ++ e.looks := by
  simp [lookupTimes]

def EnabledOnce (tr : List Handled) : Prop := tr.countP (fun e => e.input.event.isEnable) ≤ 1

def Minute (times : List Instant) : Prop := times.Pairwise fun t u => t + lookupSpacing ≤ u

theorem minute_snoc {times : List Instant} {t : Instant} (h : Minute times)
    (hl : ∀ last, times.getLast? = some last → last + lookupSpacing ≤ t) : Minute (times ++ [t]) := by
  refine List.pairwise_append.mpr ⟨h, List.pairwise_singleton _ _, ?_⟩
  intro u hu t' ht
  cases List.mem_singleton.mp ht
  rcases List.eq_nil_or_concat times with rfl | ⟨before, last, rfl⟩
  · cases hu
  · have hlast : last + lookupSpacing ≤ t := hl last (by simp)
    rw [List.concat_eq_append, List.mem_append, List.mem_singleton] at hu
    rw [Minute, List.concat_eq_append] at h
    obtain hu | rfl := hu
    · have hle : u + lookupSpacing ≤ last :=
        (List.pairwise_append.mp h).2.2 u hu last (List.mem_singleton_self _)
      exact hle.trans ((Nat.le_add_right _ _).trans hlast)
    · exact hlast

structure LookupInv (tr : List Handled) (c : Core) : Prop where
  last : (lookupTimes tr).getLast? = c.mam.network.lastSent
  spaced : Minute (lookupTimes tr)
  started : c.mam.hosts = .configured → ∃ e ∈ tr, e.input.event.isEnable
  unstarted : (∀ e ∈ tr, e.input.event.isEnable = false) → lookupTimes tr = []
  unseen : (∀ e ∈ tr, lookups e.out = []) → c.mam.network.observed = none ∧ c.mam.outstanding = none

theorem lookupInv_init : LookupInv [] core.init where
  last := rfl
  spaced := List.Pairwise.nil
  started h := nomatch h
  unstarted _ := rfl
  unseen _ := ⟨rfl, rfl⟩

section
variable {tr : List Handled} {c : Core} {i : TimedEvent} (h : LookupInv tr c)
include h

theorem started_step (hc : (c.handle i.occurredAt i.event).1.mam.hosts = .configured) :
    ∃ e ∈ tr ++ [core.entry c i], e.input.event.isEnable := by
  rw [handle_hosts] at hc
  obtain hc | hc := received_hosts c i.occurredAt i.event hc
  · obtain ⟨e, he, hen⟩ := h.started hc
    exact ⟨e, List.mem_append_left _ he, hen⟩
  · exact ⟨_, List.mem_append_right _ (List.mem_singleton_self _), hc⟩

theorem unstarted_step (hn : ∀ e ∈ tr ++ [core.entry c i], e.input.event.isEnable = false) :
    lookupTimes (tr ++ [core.entry c i]) = [] := by
  have hlast : i.event.isEnable = false := hn _ (List.mem_append_right _ (List.mem_singleton_self _))
  have hnone : lookups (c.handle i.occurredAt i.event).2 = [] := by
    rw [lookups, List.filter_eq_nil_iff]
    rintro ⟨request, cookie⟩ hp hl
    have hgate : (c.handle i.occurredAt i.event).1.mam.gate = .open' := by
      obtain ⟨-, hreq, -⟩ | ⟨hg, -⟩ := request_cases (mem_requests.mp hp)
      · simp [isLookup, hreq] at hl
      · exact hg
    rw [handle_gate_iff] at hgate
    obtain ⟨e, he, hen⟩ := started_step h hgate.1
    rw [hn e he] at hen
    cases hen
  rw [lookupTimes_snoc, h.unstarted fun e he => hn e (List.mem_append_left _ he)]
  simp [Handled.looks, hlast, hnone]

/-- Until a lookup is sent nothing is known of the IP, and nothing is asked. -/
theorem unseen_step (hn : ∀ e ∈ tr ++ [core.entry c i], lookups e.out = []) :
    (c.handle i.occurredAt i.event).1.mam.network.observed = none ∧
      (c.handle i.occurredAt i.event).1.mam.outstanding = none := by
  obtain ⟨hobs, hout⟩ := h.unseen fun e he => hn e (List.mem_append_left _ he)
  have hlast : lookups (c.handle i.occurredAt i.event).2 = [] :=
    hn _ (List.mem_append_right _ (List.mem_singleton_self _))
  have hacc : c.mam.accepted i.event = none := by
    unfold Mam.accepted
    rw [hout]
    split
    · next h => cases h
    · rfl
  have hrec : (c.received i.occurredAt i.event).mam.network.observed = none := by
    obtain hr | ⟨-, hr⟩ | ⟨-, hr⟩ := (received_receives c i.occurredAt i.event).network
    · rw [hr, hacc]
      exact hobs
    · rw [hr]
      exact hobs
    · rw [hr]
      simp [Network.unconfirm, hobs]
  have hsurv : (c.surveyed i.occurredAt i.event).network.observed = none := by
    obtain ⟨hs, -⟩ | ⟨hs, -⟩ := surveyed_network c i.occurredAt i.event
    · rw [hs, hrec]
    · rw [hs, Network.unconfirm, hrec]
      rfl
  refine ⟨by rw [handle_network]; exact hsurv, ?_⟩
  have hprep : (c.prepared i.occurredAt i.event).network.current = none := by
    rw [prepared_eq]
    simp only [Mam.noteHold, Network.current, hsurv]
    rfl
  have hslot : c.mam.slotAfter i.occurredAt i.event = none := by
    unfold Mam.slotAfter
    rw [hout]
    split
    · next h => cases h
    · next h => cases h
    · next h => cases h
    · rfl
  -- an attempt, and every request but a lookup, needs the IP in view
  obtain ⟨hempty, -⟩ | ⟨cookie, -, -, -, -, hatt⟩ | ⟨request, -, -, hw, hr, -⟩ :=
    slot_empty c i.occurredAt i.event hslot
  · exact hempty
  · have hcur := attempt_seen (hatt ▸ List.cons_ne_nil _ _)
    rw [hprep] at hcur
    cases hcur
  · obtain ⟨rfl, -⟩ | ⟨-, hcur, -⟩ := wanted_cases hw
    · rw [lookups, hr] at hlast
      cases hlast
    · rw [hprep] at hcur
      cases hcur

theorem times_step (ho : EnabledOnce (tr ++ [core.entry c i])) :
    (lookupTimes (tr ++ [core.entry c i])).getLast? =
    (c.handle i.occurredAt i.event).1.mam.network.lastSent ∧
      Minute (lookupTimes (tr ++ [core.entry c i])) := by
  rw [lookupTimes_snoc]
  have hrec := received_lastSent c i.occurredAt i.event
  have hlook := lookup_step c i.occurredAt i.event
  cases he : i.event.isEnable with
  | true =>
    have hfirst : lookupTimes tr = [] := by
      refine h.unstarted fun e hmem => ?_
      unfold EnabledOnce at ho
      rw [List.countP_append, List.countP_singleton, entry_input, he, if_pos rfl] at ho
      have hz : tr.countP (fun e => e.input.event.isEnable) = 0 := by omega
      simpa using List.countP_eq_zero.mp hz e hmem
    rw [he, if_pos rfl] at hrec
    obtain ⟨hnone, hsent⟩ | ⟨sent, -, -, hlate⟩ := hlook
    · have hlooks : Handled.looks (core.entry c i) = [i.occurredAt.monotonic] := by
        simp [Handled.looks, he, hnone, Handled.time]
      rw [hfirst, hlooks, hsent, hrec]
      exact ⟨rfl, List.pairwise_singleton _ _⟩
    · exact absurd (hlate _ hrec) (not_le.mpr (Nat.lt_add_of_pos_right (by decide)))
  | false =>
    rw [he, if_neg Bool.false_ne_true] at hrec
    obtain ⟨hnone, hsent⟩ | ⟨sent, hone, hsent, hlate⟩ := hlook
    · have hlooks : Handled.looks (core.entry c i) = [] := by simp [Handled.looks, he, hnone]
      rw [hlooks, List.append_nil, hsent, hrec]
      exact ⟨h.last, h.spaced⟩
    · have hlooks : Handled.looks (core.entry c i) = [i.occurredAt.monotonic] := by
        simp [Handled.looks, he, hone, Handled.time]
      rw [hlooks, hsent]
      refine ⟨by simp, minute_snoc h.spaced fun last hl => ?_⟩
      exact hlate last (by rw [hrec, ← h.last, hl])

theorem lookupInv_step (ho : EnabledOnce (tr ++ [core.entry c i])) :
    LookupInv (tr ++ [core.entry c i]) (core.step c i).1 where
  last := (times_step h ho).1
  spaced := (times_step h ho).2
  started := started_step h
  unstarted := unstarted_step h
  unseen := unseen_step h

end

theorem EnabledOnce.left {tr tr' : List Handled} (h : EnabledOnce (tr ++ tr')) : EnabledOnce tr := by
  unfold EnabledOnce at h ⊢
  rw [List.countP_append] at h
  omega

theorem lookupInv_run {is : List TimedEvent} (h : EnabledOnce (core.run is)) :
    LookupInv (core.run is) (core.last is) :=
  Reactive.run_invariant core (fun _ _ => EnabledOnce.left) lookupInv_init (fun _ _ _ =>
    lookupInv_step) is h

theorem enabled_before_lookup {is : List TimedEvent} (h : EnabledOnce (core.run is)) {e g : Handled}
    (he : e ∈ core.run is) (hen : e.input.event.isEnable) (hg : g ∈ core.run is)
    (hl : lookups g.out ≠ []) :
    e.time + lookupSpacing ≤ g.time := by
  have hinv := lookupInv_run h
  have hlooks : g.time ∈ Handled.looks g := by
    obtain ⟨sent, hs⟩ := List.exists_mem_of_ne_nil _ hl
    exact List.mem_append_right _ (List.mem_map.mpr ⟨sent, hs, rfl⟩)
  obtain ⟨pre, post, hrun⟩ := List.append_of_mem he
  obtain ⟨js, i, ks, -, hpre, -, -⟩ := Reactive.run_split core hrun
  rw [hrun] at h hinv hg
  have hpreinv : LookupInv pre (core.last js) := by
    rw [hpre]
    rw [hpre] at h
    exact lookupInv_run h.left
  have hnone : lookupTimes pre = [] := by
    refine hpreinv.unstarted fun x hx => ?_
    unfold EnabledOnce at h
    rw [List.countP_append, List.countP_cons, if_pos hen] at h
    have hz : pre.countP (fun e => e.input.event.isEnable) = 0 := by omega
    simpa using List.countP_eq_zero.mp hz x hx
  have hspaced : Minute (lookupTimes (pre ++ e :: post)) := hinv.spaced
  have hlist : lookupTimes (pre ++ e :: post) = e.time :: ((lookups e.out).map fun _ => e.time) ++
      lookupTimes post := by
    rw [lookupTimes, List.flatMap_append, List.flatMap_cons]
    change lookupTimes pre ++ _ = _
    rw [hnone]
    simp [Handled.looks, hen, lookupTimes]
  rw [hlist, Minute, List.cons_append, List.pairwise_cons] at hspaced
  refine hspaced.1 _ ?_
  obtain hg | rfl | hg := List.mem_append.mp hg |>.imp_right List.mem_cons.mp
  · have hmem : g.time ∈ lookupTimes pre := List.mem_flatMap.mpr ⟨g, hg, hlooks⟩
    rw [hnone] at hmem
    cases hmem
  · obtain ⟨sent, hs⟩ := List.exists_mem_of_ne_nil _ hl
    exact List.mem_append_left _ (List.mem_map.mpr ⟨sent, hs, rfl⟩)
  · exact List.mem_append_right _ (List.mem_flatMap.mpr ⟨g, hg, hlooks⟩)

theorem lookup_first {is : List TimedEvent} {pre post : List Handled} {f : Handled}
    (h : EnabledOnce (core.run is))
    (hrun : core.run is = pre ++ f :: post) (hf : requests f.out ≠ []) :
    ∃ g ∈ pre ++ [f], lookups g.out ≠ [] := by
  obtain ⟨js, i, ks, -, hpre, rfl, -⟩ := Reactive.run_split core hrun
  have hjs : EnabledOnce (core.run js) := by
    rw [hrun, hpre] at h
    exact h.left
  by_contra hno
  have hall : ∀ g ∈ core.run js ++ [core.entry (core.last js) i], lookups g.out = [] := by
    intro g hg
    by_contra hl
    exact hno ⟨g, hpre ▸ hg, hl⟩
  obtain ⟨-, hout⟩ := unseen_step (lookupInv_run hjs) hall
  obtain ⟨⟨request, cookie⟩, hm⟩ := List.exists_mem_of_ne_nil _ hf
  obtain ⟨-, epoch, hslot⟩ := sent_step (mem_requests.mp hm)
  rw [hslot] at hout
  cases hout

/-- MAM work that is started once looks the IP up no sooner than a minute after it
started or last looked it up; and on a steady clock, no request of any kind is
sent in that first minute. -/
theorem lookups_spaced {is : List TimedEvent} (h : EnabledOnce (core.run is)) :
    Minute (lookupTimes (core.run is)) ∧
    (Steady (core.run is) → ∀ pre f post, core.run is = pre ++ f :: post → requests f.out ≠ [] →
      ∀ e ∈ pre ++ [f], e.input.event.isEnable → e.time + lookupSpacing ≤ Handled.time f) := by
  refine ⟨(lookupInv_run h).spaced, ?_⟩
  intro hs pre f post hrun hf e he hen
  obtain ⟨g, hg, hl⟩ := lookup_first h hrun hf
  have hmem {x : Handled} (hx : x ∈ pre ++ [f]) : x ∈ core.run is := by
    rw [hrun]
    simp only [List.mem_append, List.mem_cons, List.not_mem_nil, or_false] at hx ⊢
    exact hx.imp_right .inl
  have hle : g.time ≤ Handled.time f := by
    obtain hg | hg := List.mem_append.mp hg
    · rw [hrun] at hs
      exact (List.pairwise_append.mp hs).2.2 g hg f List.mem_cons_self
    · cases List.mem_singleton.mp hg
      exact le_rfl
  exact (enabled_before_lookup h (hmem he) hen (hmem hg) hl).trans hle

theorem looked_up_after_a_minute :
    lookupTimes (core.run startedEvents) = [0, Duration.fromSecs 60] ∧
    Minute (lookupTimes (core.run startedEvents)) :=
  ⟨by decide +kernel, (lookups_spaced (show List.countP _ _ ≤ 1 by decide +kernel)).1⟩

end Windlass
