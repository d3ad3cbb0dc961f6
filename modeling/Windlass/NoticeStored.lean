import Windlass.NoticeSound
import Windlass.System

/-!
# Notices in the database

The notices log over every run of the whole program: entries are saved by workers of
their own, in any order, and the program may stop at any moment. No entry takes the
place of another, and an entry once saved stays until a thousand newer ones are.
-/

namespace Windlass

/-! ## Places that are given out -/

structure Places (entries : List Logged) (first next : NoticeId) : Prop where
  within : ∀ e ∈ entries, first ≤ e.id ∧ e.id < next
  distinct : (entries.map Logged.id).Nodup

theorem following_lt {id : NoticeId} (h : (id : Nat) ≤ i64Max) : id < id.following := by
  have hlt : (id : Nat) < id.following.val := by
    rw [following_val]
    have hmax : i64Max + 1 ≤ u64Max := by decide
    have hid : id.val ≤ i64Max := h
    change id.val < _
    omega
  exact PNat.coe_lt_coe _ _ |>.mp hlt

theorem entries_places {first : NoticeId} {notices : List (SystemTime × Notice)}
    (h : ∀ e ∈ entries first notices, (e.id : Nat) ≤ i64Max) :
    Places (entries first notices) first (first.skip notices.length) ∧
    first ≤ first.skip notices.length := by
  -- on the notices; while ids fit in storage the places do not repeat
  induction notices generalizing first with
  | nil => exact ⟨⟨by simp [entries], by simp [entries]⟩, le_refl _⟩
  | cons p notices ih =>
    have hfirst : (first : Nat) ≤ i64Max := h _ List.mem_cons_self
    obtain ⟨hrest, hle⟩ := ih fun e he => h e (List.mem_cons_of_mem _ he)
    have hlt : first < first.following := following_lt hfirst
    refine ⟨⟨fun e he => ?_, ?_⟩, hlt.le.trans hle⟩
    · rcases List.mem_cons.mp he with rfl | he
      · exact ⟨le_refl _, lt_of_lt_of_le hlt hle⟩
      · obtain ⟨hge, hnext⟩ := hrest.within e he
        exact ⟨hlt.le.trans hge, hnext⟩
    · refine List.nodup_cons.mpr ⟨fun hmem => ?_, hrest.distinct⟩
      obtain ⟨e, he, heq⟩ := List.mem_map.mp hmem
      exact absurd (lt_of_lt_of_le hlt (hrest.within e he).1) (by rw [heq]; exact lt_irrefl _)

/-- What a step makes of the log: it stays unread, or gives its entries the next
places, or cannot be used. -/
theorem log_step (c : Core) (i : TimedEvent) :
    (∃ held held', c.notifications.log = .waiting held ∧
      (core.step c i).1.notifications.log = .waiting held' ∧
      (core.step c i).2.filterMap Action.logged? = []) ∨
    ((core.step c i).1.notifications.log = .unavailable ∧
      (core.step c i).2.filterMap Action.logged? = []) ∨
    ∃ first notices, (c.notifications.log = .ready first ∨
        ∃ last held, i.event = .notification (.logRead last) ∧ c.notifications.log = .waiting held ∧
        first = place last) ∧
      (core.step c i).1.notifications.log = .ready (first.skip notices.length) ∧
      (core.step c i).2.filterMap Action.logged? =
        (entries first notices).map fun entry => (entry, entry.id.forgetThrough) := by
  -- an unreadable log stays so and saves nothing
  by_cases hf : c.failsLog i.event = true ∨ c.notifications.log = .unavailable
  · obtain ⟨hout, hlog⟩ := unreadable_step hf
    exact .inr (.inl ⟨hlog, hout⟩)
  · rw [not_or] at hf
    obtain ⟨hf, hu⟩ := hf
    obtain ⟨conditions, graceTimer, hstate, hout, -⟩ := handle_mail c i.occurredAt i.event
    rw [saving_logged] at hout
    have hafter : (core.step c i).1.notifications.log =
        (c.logAfter i.event).after (c.given i.occurredAt i.event) := by
      rw [core_step, hstate]
    rw [← core_step] at hout
    obtain ⟨hnone, -⟩ | ⟨last, held, he, hl, hsome⟩ := logGiven_sound (by simpa using hf)
    · have hla : c.logAfter i.event = c.notifications.log := by simp only [Core.logAfter, hnone]
      have hentries : c.entriesOf i.occurredAt i.event =
          c.notifications.log.saved (c.given i.occurredAt i.event) := by
        simp only [Core.entriesOf, hnone, hla, Option.elim_none, List.nil_append]
      rw [hafter, hout, hla, hentries]
      cases hl : c.notifications.log with
      | waiting held => exact .inl ⟨held, _, rfl, rfl, rfl⟩
      | ready first => exact .inr (.inr ⟨first, c.given i.occurredAt i.event, .inl rfl, rfl, rfl⟩)
      | unavailable => exact absurd hl hu
    · have hla : c.logAfter i.event = .ready ((place last).skip held.length) := by
        simp only [Core.logAfter, hsome, hl]
        rfl
      have hentries : c.entriesOf i.occurredAt i.event =
          entries (place last) (held ++ c.given i.occurredAt i.event) := by
        simp only [Core.entriesOf, hsome, hla, hl, entries_append]
        rfl
      refine .inr (.inr ⟨place last, held ++ c.given i.occurredAt i.event,
        .inr ⟨last, held, he, hl, rfl⟩, ?_, ?_⟩)
      · rw [hafter, hla, List.length_append, skip_add]
        rfl
      · rw [hout, hentries]

/-! ## Entries stored and on their way -/

def Operation.notice? : Operation → Option Logged
  | .saveNotice entry _ => some entry
  | _ => none

def storedNotices (saved : Option Saved) : List Logged := saved.elim [] Saved.notices

def unsavedNotices (jobs : List (Workers.Job Operation Event)) : List Logged :=
  jobs.filterMap fun job => if job.report.isNone then job.work.notice? else none

/-- An entry that was stored still is, or there is one a thousand places on. -/
def Retains (before after : List Logged) : Prop :=
  ∀ e ∈ before, e ∈ after ∨ ∃ e' ∈ after, (e.id : Nat) + logKept ≤ e'.id

/-- The log in storage and in memory: no place is given out twice, and what is read of the log
before any entry is saved reaches every entry stored. -/
structure NoticesSafe (before : List Logged) (s : Running (Option Saved)) : Prop where
  distinct : ((storedNotices s.resource ++ unsavedNotices s.jobs).map Logged.id).Nodup
  small : ∀ e ∈ storedNotices s.resource ++ unsavedNotices s.jobs, (e.id : Nat) ≤ i64Max
  forgets : ∀ job ∈ s.jobs, ∀ entry through, job.work = .saveNotice entry through →
    through = entry.id.forgetThrough
  unread : ∀ held, (coreOf s).notifications.log = .waiting held →
    (∀ job ∈ s.jobs, job.work.notice? = none) ∧
    ∀ job ∈ s.jobs, ∀ last, job.report = some (.notification (.logRead last)) →
      ∀ e ∈ storedNotices s.resource, ∃ l ∈ last, e.id ≤ l
  read : ∀ next, (coreOf s).notifications.log = .ready next → s.resource.isSome ∧
    ∀ e ∈ storedNotices s.resource ++ unsavedNotices s.jobs, e.id < next
  opened : ∀ job ∈ s.jobs,
    (∃ last, job.report = some (.notification (.logRead last))) ∨ job.work.notice?.isSome →
    s.resource.isSome
  retains : Retains before (storedNotices s.resource)

/-- The places of the entries a run asks to save can be stored. -/
def Action.Placed (action : Action) : Prop :=
  ∀ entry through, action = .saveNotice entry through → (entry.id : Nat) ≤ i64Max

section
variable {jobs : List (Workers.Job Operation Event)} {k : Nat} {w : Operation} {event : Event}

theorem unsaved_append (more : List (Workers.Job Operation Event)) :
    unsavedNotices (jobs ++ more) = unsavedNotices jobs ++ unsavedNotices more :=
  List.filterMap_append

theorem unsaved_set (event : Event) (hj : jobs[k]? = some ⟨w, none⟩) :
    (unsavedNotices jobs).Perm (w.notice?.toList ++ unsavedNotices (jobs.set k ⟨w, some event⟩)) := by
  obtain ⟨hjobs, hset⟩ :=
    Workers.gather_split (fun job => if job.report.isNone then job.work.notice? else none) hj
  exact hjobs.trans ((hset ⟨w, some event⟩).symm.append_left _)

theorem unsaved_erase (hj : jobs[k]? = some ⟨w, some event⟩) :
    unsavedNotices (jobs.eraseIdx k) = unsavedNotices jobs :=
  Workers.gather_erase hj rfl

theorem unsaved_asked (out : List Action) :
    unsavedNotices ((out.filterMap Action.operation?).map fun w => ⟨w, none⟩) =
      (out.filterMap Action.logged?).map Prod.fst := by
  induction out with
  | nil => rfl
  | cons action out ih =>
    cases action <;> first | exact ih | exact congrArg (_ :: ·) ih

end

theorem execute_notices (saved : Option Saved) (w : Operation) :
    storedNotices (Saved.execute saved w).1 = storedNotices saved ∨
      ∃ entry through, w = .saveNotice entry through ∧ storedNotices (Saved.execute saved w).1 =
        (storedNotices saved ++ [entry]).filter fun e => through.all fun t =>
        decide (integer t < integer e.id) := by
  cases saved with
  | none =>
    left
    cases w with
    | openStorage mode => cases mode <;> rfl
    | _ => rfl
  | some s =>
    cases w with
    | saveNotice entry through =>
      unfold Saved.execute Saved.after
      by_cases ht : s.taken entry.id
      · left
        simp [ht]
      · right
        refine ⟨entry, through, rfl, ?_⟩
        simp [ht, Saved.log, storedNotices]
    | _ => exact .inl rfl

theorem failure_unread (w : Operation) (last : Option NoticeId) :
    w.failure ≠ .notification (.logRead last) := by
  cases w <;> simp [Operation.failure]

theorem execute_opened {saved : Option Saved} (w : Operation) (h : saved.isSome) :
    (Saved.execute saved w).1.isSome := by
  cases saved with
  | none => cases h
  | some s => rfl

/-- The end of the log that is read is at or after every entry stored. -/
theorem execute_read {saved : Option Saved} {w : Operation} {last : Option NoticeId}
    (h : (Saved.execute saved w).2 = .notification (.logRead last))
    (hsmall : ∀ e ∈ storedNotices saved, (e.id : Nat) ≤ i64Max) :
    (Saved.execute saved w).1.isSome ∧ ∀ e ∈ storedNotices saved, ∃ l ∈ last, e.id ≤ l := by
  cases saved with
  | none =>
    by_cases hopen : w = .openStorage .initialise
    · subst hopen
      cases h
    · refine absurd ?_ (failure_unread w last)
      rw [← h]
      cases w with
      | openStorage mode =>
        cases mode with
        | initialise => exact absurd rfl hopen
        | resume => rfl
      | _ => rfl
  | some s =>
    refine ⟨rfl, fun e he => ?_⟩
    cases w with
    | readNoticeLog =>
      obtain rfl : (s.notices.map fun e => integer e.id).max?.bind noticeId = last := by
        injection h with h
        injection h
      have hmem : integer e.id ∈ s.notices.map fun e => integer e.id := List.mem_map_of_mem he
      obtain ⟨m, hm⟩ := Option.isSome_iff_exists.mp (List.isSome_max?_of_mem hmem)
      have hle : integer e.id ≤ m := (List.max?_eq_some_iff.mp hm).2 _ hmem
      obtain ⟨e', he', rfl⟩ := List.mem_map.mp (List.max?_mem hm)
      obtain ⟨l, hl, hv⟩ := noticeId_integer e'.id
      refine ⟨l, by rw [hm, Option.bind_some, hl]; rfl, ?_⟩
      have h1 := hsmall e he
      have h2 := hsmall e' he'
      rw [← PNat.coe_le_coe, hv]
      unfold integer at hle
      omega
    | openStorage mode => cases mode <;> cases h
    | readTorrentRegistry => cases h
    | saveNotice entry through =>
      have hsave : (Saved.execute (some s) (.saveNotice entry through)).2 =
          .notification (if s.taken entry.id then .saveFailed else .saved) := rfl
      rw [hsave] at h
      split at h <;> cases h
    | _ => cases h

/-! ## One step -/

section
variable {before : List Logged} {s : Running (Option Saved)} {k : Nat} {w : Operation}

theorem coreOf_take (s : Running (Option Saved)) (i : TimedEvent) :
    coreOf (program.take s i).1 = (core.step (coreOf s) i).1 :=
  Reactive.last_snoc core s.taken i

theorem unsaved_take (s : Running (Option Saved)) (i : TimedEvent) :
    unsavedNotices (program.take s i).1.jobs =
    unsavedNotices s.jobs ++ ((core.step (coreOf s) i).2.filterMap Action.logged?).map Prod.fst := by
  refine (unsaved_append _).trans (congrArg (_ ++ ·) ?_)
  exact unsaved_asked _

theorem mem_asked {action : Action} {entry : Logged} {through : Option NoticeId}
    (h : action.operation? = some (.saveNotice entry through)) : action = .saveNotice entry through := by
  cases action <;> cases h
  rfl

theorem take_jobs {i : TimedEvent} {job : Workers.Job Operation Event}
    (hj : job ∈ (program.take s i).1.jobs) : job ∈ s.jobs ∨
      job.report = none ∧ ∃ action ∈ (program.take s i).2, action.operation? = some job.work := by
  rcases List.mem_append.mp hj with hj | hj
  · exact .inl hj
  · obtain ⟨w, hw, rfl⟩ := List.mem_map.mp hj
    exact .inr ⟨rfl, List.mem_filterMap.mp hw⟩

/-- A save is an old one, or of an entry the step gives its place. -/
theorem take_saves {i : TimedEvent} {job : Workers.Job Operation Event} {entry : Logged}
    {through : Option NoticeId} (hj : job ∈ (program.take s i).1.jobs)
    (hw : job.work = .saveNotice entry through) : job ∈ s.jobs ∨
      (entry, through) ∈ (core.step (coreOf s) i).2.filterMap Action.logged? := by
  obtain hj | ⟨-, action, ha, hwork⟩ := take_jobs hj
  · exact .inl hj
  · rw [hw] at hwork
    exact .inr (List.mem_filterMap.mpr ⟨_, mem_asked hwork ▸ ha, rfl⟩)

theorem take_reports {i : TimedEvent} {job : Workers.Job Operation Event} {event : Event}
    (hj : job ∈ (program.take s i).1.jobs) (hr : job.report = some event) : job ∈ s.jobs := by
  obtain hj | ⟨hnone, -⟩ := take_jobs hj
  · exact hj
  · rw [hnone] at hr
    cases hr

theorem NoticesSafe.take_opened (h : NoticesSafe before s) {i : TimedEvent}
    (hor : (core.step (coreOf s) i).2.filterMap Action.logged? = [] ∨ s.resource.isSome) :
    ∀ job ∈ (program.take s i).1.jobs,
      (∃ last, job.report = some (.notification (.logRead last))) ∨ job.work.notice?.isSome →
      s.resource.isSome := by
  intro job hj hjob
  obtain hnone | hsome := hor
  · obtain ⟨last, hl⟩ | hnotice := id hjob
    · exact h.opened job (take_reports hj hl) hjob
    · cases hw : job.work with
      | saveNotice entry through =>
        obtain hj | hmem := take_saves hj hw
        · exact h.opened job hj hjob
        · rw [hnone] at hmem
          cases hmem
      | _ =>
        rw [hw] at hnotice
        cases hnotice
  · exact hsome

/-- A step that saves no entry: the log stays unread, or cannot be used. -/
theorem NoticesSafe.take_none (h : NoticesSafe before s) {i : TimedEvent}
    (hout : (core.step (coreOf s) i).2.filterMap Action.logged? = [])
    (hwaits : ∀ held, (core.step (coreOf s) i).1.notifications.log = .waiting held →
      ∃ held', (coreOf s).notifications.log = .waiting held')
    (hready : ∀ next, (core.step (coreOf s) i).1.notifications.log ≠ .ready next) :
    NoticesSafe before (program.take s i).1 := by
  have hunsaved := unsaved_take s i
  rw [hout, List.map_nil, List.append_nil] at hunsaved
  have hold {job : Workers.Job Operation Event} {entry : Logged} {through : Option NoticeId}
      (hj : job ∈ (program.take s i).1.jobs) (hw : job.work = .saveNotice entry through) :
      job ∈ s.jobs := by
    obtain hj | hmem := take_saves hj hw
    · exact hj
    · rw [hout] at hmem
      cases hmem
  refine ⟨by rw [hunsaved]; exact h.distinct, by rw [hunsaved]; exact h.small, ?_, ?_, ?_,
    h.take_opened (.inl hout), h.retains⟩
  · intro job hj entry through hw
    exact h.forgets job (hold hj hw) entry through hw
  · intro held hl
    rw [coreOf_take] at hl
    obtain ⟨held', hl'⟩ := hwaits held hl
    obtain ⟨hnone, hreports⟩ := h.unread held' hl'
    refine ⟨fun job hj => ?_, fun job hj last hr => hreports job (take_reports hj hr) last hr⟩
    cases hw : job.work with
    | saveNotice entry through =>
      have hnotice := hnone job (hold hj hw)
      rw [hw] at hnotice
      cases hnotice
    | _ => rfl
  · intro next hl
    rw [coreOf_take] at hl
    exact absurd hl (hready next)

/-- A log that is ready stays beyond all entries, also when it was just read. -/
theorem NoticesSafe.first_beyond (h : NoticesSafe before s) {i : TimedEvent} {first : NoticeId}
    (hread : ∀ last held, i.event = .notification (.logRead last) →
      (coreOf s).notifications.log = .waiting held →
      s.resource.isSome ∧ ∀ e ∈ storedNotices s.resource, ∃ l ∈ last, e.id ≤ l)
    (hfirst : (coreOf s).notifications.log = .ready first ∨
      ∃ last held, i.event = .notification (.logRead last) ∧
        (coreOf s).notifications.log = .waiting held ∧ first = place last) :
    s.resource.isSome ∧ ∀ e ∈ storedNotices s.resource ++ unsavedNotices s.jobs, e.id < first := by
  obtain hl | ⟨last, held, he, hl, rfl⟩ := hfirst
  · exact h.read first hl
  · refine ⟨(hread last held he hl).1, fun e hmem => ?_⟩
    rcases List.mem_append.mp hmem with hmem | hmem
    · obtain ⟨l, hlast, hel⟩ := (hread last held he hl).2 e hmem
      cases hlast
      have hsm := h.small e (List.mem_append_left _ hmem)
      have hv : (place (some l) : Nat) = min ((l : Nat) + 1) u64Max := following_val l
      have hmax : i64Max + 1 ≤ u64Max := by decide
      rw [← PNat.coe_le_coe] at hel
      rw [← PNat.coe_lt_coe, hv]
      omega
    -- while the log is unread no worker saves a notice
    · obtain ⟨job, hj, hnotice⟩ := List.mem_filterMap.mp hmem
      have hnone := (h.unread held hl).1 job hj
      rw [hnone, ite_self] at hnotice
      cases hnotice

theorem NoticesSafe.take_entries (h : NoticesSafe before s) {i : TimedEvent} {first : NoticeId}
    {notices : List (SystemTime × Notice)}
    (hsmall : ∀ e ∈ entries first notices, (e.id : Nat) ≤ i64Max) (hsome : s.resource.isSome)
    (hbeyond : ∀ e ∈ storedNotices s.resource ++ unsavedNotices s.jobs, e.id < first)
    (hlog : (core.step (coreOf s) i).1.notifications.log = .ready (first.skip notices.length))
    (hout : (core.step (coreOf s) i).2.filterMap Action.logged? =
      (entries first notices).map fun entry => (entry, entry.id.forgetThrough)) :
    NoticesSafe before (program.take s i).1 := by
  obtain ⟨hplaces, hle⟩ := entries_places hsmall
  have hunsaved : unsavedNotices (program.take s i).1.jobs =
      unsavedNotices s.jobs ++ entries first notices := by
    rw [unsaved_take, hout, List.map_map]
    exact congrArg (_ ++ ·) (List.map_id _)
  refine ⟨?_, ?_, ?_, ?_, ?_, h.take_opened (.inr hsome), h.retains⟩
  · rw [hunsaved, ← List.append_assoc, List.map_append]
    refine List.Nodup.append h.distinct hplaces.distinct ?_
    intro id hold hnew
    obtain ⟨e, he, rfl⟩ := List.mem_map.mp hold
    obtain ⟨e', he', heq⟩ := List.mem_map.mp hnew
    exact absurd (hbeyond e he) (by rw [← heq]; exact not_lt.mpr (hplaces.within e' he').1)
  · rw [hunsaved, ← List.append_assoc]
    intro e he
    rcases List.mem_append.mp he with he | he
    · exact h.small e he
    · exact hsmall e he
  · intro job hj entry through hw
    obtain hj | hmem := take_saves hj hw
    · exact h.forgets job hj entry through hw
    · rw [hout] at hmem
      obtain ⟨e, -, heq⟩ := List.mem_map.mp hmem
      cases heq
      rfl
  · intro held hl
    rw [coreOf_take, hlog] at hl
    cases hl
  · intro next hl
    rw [coreOf_take, hlog] at hl
    cases hl
    rw [hunsaved, ← List.append_assoc]
    refine ⟨hsome, fun e he => ?_⟩
    rcases List.mem_append.mp he with he | he
    · exact lt_of_lt_of_le (hbeyond e he) hle
    · exact (hplaces.within e he).2

theorem NoticesSafe.take (h : NoticesSafe before s) {i : TimedEvent}
    (hread : ∀ last held, i.event = .notification (.logRead last) →
      (coreOf s).notifications.log = .waiting held →
      s.resource.isSome ∧ ∀ e ∈ storedNotices s.resource, ∃ l ∈ last, e.id ≤ l)
    (hok : ∀ action ∈ (program.take s i).2, action.Placed) : NoticesSafe before (program.take s i).1 := by
  -- the log goes on waiting, is unavailable, or is ready and hands its entries over
  obtain ⟨held, held', hl, hl', hout⟩ | ⟨hl', hout⟩ | ⟨first, notices, hfirst, hl', hout⟩ :=
    log_step (coreOf s) i
  · exact h.take_none hout (fun _ _ => ⟨held, hl⟩) fun next hn => by rw [hl'] at hn; cases hn
  · exact h.take_none hout (fun _ hw => by rw [hl'] at hw; cases hw) fun next hn => by
      rw [hl'] at hn
      cases hn
  · have hsmall : ∀ e ∈ entries first notices, (e.id : Nat) ≤ i64Max := by
      intro e he
      have hmem : (e, e.id.forgetThrough) ∈ (core.step (coreOf s) i).2.filterMap Action.logged? := by
        rw [hout]
        exact List.mem_map_of_mem he
      obtain ⟨action, ha, hlog⟩ := List.mem_filterMap.mp hmem
      refine hok action ha e e.id.forgetThrough ?_
      cases action <;> cases hlog
      rfl
    obtain ⟨hsome, hbeyond⟩ := h.first_beyond hread hfirst
    exact h.take_entries hsmall hsome hbeyond hl' hout

theorem Retains.refl (entries : List Logged) : Retains entries entries := fun _ he => .inl he

theorem Retains.trans {first second third : List Logged} (h : Retains first second)
    (h' : Retains second third) :
    Retains first third := by
  have hlast : ∀ e ∈ second, ∃ e' ∈ third, (e.id : Nat) ≤ e'.id := by
    intro e he
    rcases h' e he with he | ⟨e', he', hle⟩
    · exact ⟨e, he, le_refl _⟩
    · exact ⟨e', he', (Nat.le_add_right _ _).trans hle⟩
  intro e he
  rcases h e he with he | ⟨e', he', hle⟩
  · exact h' e he
  · obtain ⟨e'', he'', hle'⟩ := hlast e' he'
    exact .inr ⟨e'', he'', hle.trans hle'⟩

theorem retains_saved {stored : List Logged} {entry : Logged} (hs : ∀ e ∈ stored, (e.id : Nat) ≤ i64Max)
    (he : (entry.id : Nat) ≤ i64Max) : Retains stored ((stored ++ [entry]).filter fun e =>
      entry.id.forgetThrough.all fun t => decide (integer t < integer e.id)) := by
  intro e hmem
  by_cases hkept : entry.id.forgetThrough.all fun t => decide (integer t < integer e.id)
  · exact .inl (List.mem_filter.mpr ⟨List.mem_append_left _ hmem, hkept⟩)
  · right
    have hsm := hs e hmem
    cases ht : entry.id.forgetThrough with
    | none => simp [ht] at hkept
    | some t =>
      have hv : (t : Nat) + logKept = entry.id := by
        unfold NoticeId.forgetThrough at ht
        split at ht
        · next hlt =>
          obtain rfl := Option.some.inj ht
          exact Nat.sub_add_cancel hlt.le
        · cases ht
      have hpos : 0 < logKept := by decide
      have hlt : ¬integer t < integer e.id := by simpa [ht] using hkept
      unfold integer at hlt
      refine ⟨entry, List.mem_filter.mpr ⟨by simp, ?_⟩, by omega⟩
      change decide (integer t < integer entry.id) = true
      rw [decide_eq_true_eq]
      unfold integer
      omega

theorem NoticesSafe.ended (h : NoticesSafe before s) (hj : s.jobs[k]? = some ⟨w, none⟩)
    {resource : Option Saved} {event : Event}
    (hr : storedNotices resource = storedNotices s.resource ∨
      ∃ entry through, w = .saveNotice entry through ∧ storedNotices resource =
        (storedNotices s.resource ++ [entry]).filter fun e =>
          through.all fun t => decide (integer t < integer e.id))
    (hs : s.resource.isSome → resource.isSome)
    (he : ∀ last, event = .notification (.logRead last) →
      resource.isSome ∧ ∀ e ∈ storedNotices s.resource, ∃ l ∈ last, e.id ≤ l) :
    NoticesSafe before { s with resource := resource, jobs := s.jobs.set k ⟨w, some event⟩ } := by
  have hperm := unsaved_set event hj
  have hworks {job : Workers.Job Operation Event} (hmem : job ∈ s.jobs.set k ⟨w, some event⟩) :=
    Workers.mem_set_work hj hmem
  have hsub : (storedNotices resource).Sublist (storedNotices s.resource ++ w.notice?.toList) := by
    obtain hr | ⟨entry, through, rfl, hr⟩ := hr
    · rw [hr]
      exact List.sublist_append_left _ _
    · rw [hr]
      exact List.filter_sublist
  have hall : (storedNotices s.resource ++ unsavedNotices s.jobs).Perm
      (storedNotices s.resource ++ w.notice?.toList ++
        unsavedNotices (s.jobs.set k ⟨w, some event⟩)) := by
    rw [List.append_assoc]
    exact hperm.append_left _
  have hmem : ∀ e ∈ storedNotices resource ++ unsavedNotices (s.jobs.set k ⟨w, some event⟩),
      e ∈ storedNotices s.resource ++ unsavedNotices s.jobs :=
    fun e he => hall.symm.subset ((hsub.append_right _).subset he)
  refine ⟨?_, fun e he => h.small e (hmem e he), ?_, ?_, fun next hn => ?_, ?_, ?_⟩
  · exact (((hall.map _).nodup_iff.mp h.distinct)).sublist ((hsub.append_right _).map _)
  · intro job hjob entry through hw
    obtain ⟨old, ho, hwork⟩ := hworks hjob
    exact h.forgets old ho entry through (hwork.trans hw)
  · intro held hl
    obtain ⟨hnone, hreports⟩ := h.unread held hl
    have hw : w.notice? = none := hnone _ (List.mem_of_getElem? hj)
    have hsame : storedNotices resource = storedNotices s.resource := by
      obtain hr | ⟨entry, through, rfl, -⟩ := hr
      · exact hr
      · cases hw
    refine ⟨fun job hjob => ?_, fun job hjob last hrep => ?_⟩
    · obtain ⟨old, ho, hwork⟩ := hworks hjob
      rw [← hwork]
      exact hnone old ho
    · rw [hsame]
      rcases List.mem_or_eq_of_mem_set hjob with hjob | rfl
      · exact hreports job hjob last hrep
      · cases hrep
        exact (he last rfl).2
  · obtain ⟨hsome, hbelow⟩ := h.read next hn
    exact ⟨hs hsome, fun e he => hbelow e (hmem e he)⟩
  · intro job hjob hor
    rcases List.mem_or_eq_of_mem_set hjob with hjob | rfl
    · exact hs (h.opened job hjob hor)
    · obtain ⟨last, hl⟩ | hnotice := hor
      · exact (he last (Option.some.inj hl)).1
      · exact hs (h.opened _ (List.mem_of_getElem? hj) (.inr hnotice))
  · refine h.retains.trans ?_
    obtain hr | ⟨entry, through, rfl, hr⟩ := hr
    · rw [hr]
      exact .refl _
    · rw [hr, h.forgets _ (List.mem_of_getElem? hj) entry through rfl]
      have hentry : entry ∈ unsavedNotices s.jobs :=
        hperm.symm.subset (List.mem_append_left _ (by simp [Operation.notice?]))
      exact retains_saved (fun e he => h.small e (List.mem_append_left _ he))
        (h.small entry (List.mem_append_right _ hentry))

theorem notices_keep (before : List Logged) :
    program.Keeps Saved.execute (fun _ out => ∀ action ∈ out, action.Placed)
    (NoticesSafe before) where
  input s i h hi hok := by
    refine h.take (fun last held he _ => ?_) hok
    have hr : i.event.reportsStorage = false := hi
    rw [he] at hr
    cases hr
  perform s k w h hj := h.ended hj (execute_notices s.resource w) (execute_opened w) fun last he =>
    execute_read he fun e hmem => h.small e (List.mem_append_left _ hmem)
  fail s k w h hj := h.ended hj (.inl rfl) id fun last he => absurd he (failure_unread w last)
  complete s k w e at' h hj hok := by
    have herased : NoticesSafe before { s with jobs := s.jobs.eraseIdx k } := by
      have hunsaved := unsaved_erase hj
      refine ⟨by rw [hunsaved]; exact h.distinct, by rw [hunsaved]; exact h.small,
        fun job hjob => ?_, fun held hl => ?_,
        by rw [hunsaved]; exact h.read, fun job hjob => h.opened job (List.mem_of_mem_eraseIdx hjob), h.retains⟩
      · exact h.forgets job (List.mem_of_mem_eraseIdx hjob)
      · obtain ⟨hnone, hreports⟩ := h.unread held hl
        exact ⟨fun job hjob => hnone job (List.mem_of_mem_eraseIdx hjob),
          fun job hjob => hreports job (List.mem_of_mem_eraseIdx hjob)⟩
    refine herased.take (fun last held he hl => ?_) hok
    have hmem := List.mem_of_getElem? hj
    exact ⟨h.opened _ hmem (.inl ⟨last, congrArg some he⟩),
      (h.unread held hl).2 _ hmem last (congrArg some he)⟩
  restart s h := by
    refine ⟨?_, fun e he => ?_, by simp, fun held hl => ⟨by simp, by simp⟩, fun next hn => ?_,
      by simp, h.retains⟩
    · exact h.distinct.sublist ((List.append_sublist_append_left _).mpr (List.nil_sublist _) |>.map _)
    · have hnil : unsavedNotices [] = [] := rfl
      rw [hnil, List.append_nil] at he
      exact h.small e (List.mem_append_left _ he)
    · cases hn

end

/-! ## Every run -/

def NoticeRows (message : Notice → Message) : Option Database → List Logged → Prop
  | none, entries => entries = []
  | some db, entries => ∃ t, db.tables "notices" = some t ∧ t.rows = entries.map fun e =>
    noticeSchema.fill (e.given message)

theorem holds_rows {message : Notice → Message} {file : Option Database} {saved : Option Saved}
    (h : FileHolds message file saved) : NoticeRows message file (storedNotices saved) := by
  cases file with
  | none =>
    cases saved with
    | none => rfl
    | some s => exact h.elim
  | some db =>
    cases saved with
    | none => exact h.elim
    | some s =>
      obtain ⟨t, ht, -, -, hrows⟩ := h.notices
      exact ⟨t, ht, hrows⟩

section
variable {before : List Logged} {s : Running (Option Saved)}

/-- An entry that waits for its worker has a place that no stored entry has. -/
theorem NoticesSafe.untaken {saved : Saved} {entry : Logged} (h : NoticesSafe before s)
    (hs : s.resource = some saved) (hentry : entry ∈ unsavedNotices s.jobs) :
    saved.taken entry.id = false := by
  have hdistinct := h.distinct
  have hsmall := h.small
  rw [hs] at hdistinct hsmall
  unfold Saved.taken
  rw [List.any_eq_false]
  intro e he htaken
  -- the database compares the places as it stores them, which up to i64::MAX is as they are
  have hids : integer e.id = integer entry.id := by simpa using htaken
  have h1 := hsmall e (List.mem_append_left _ he)
  have h2 := hsmall entry (List.mem_append_right _ hentry)
  have hsame : e.id = entry.id := by
    unfold integer at hids
    exact PNat.coe_injective (by omega)
  rw [List.map_append] at hdistinct
  exact (List.nodup_append.mp hdistinct).2.2 e.id (List.mem_map_of_mem he) entry.id
    (List.mem_map_of_mem hentry) hsame

theorem NoticesSafe.save_succeeds {entry : Logged} {through : Option NoticeId} (h : NoticesSafe before s)
    (hj : ⟨.saveNotice entry through, none⟩ ∈ s.jobs) :
    (Saved.execute s.resource (.saveNotice entry through)).2 = .notification .saved := by
  have hentry : entry ∈ unsavedNotices s.jobs := List.mem_filterMap.mpr ⟨_, hj, rfl⟩
  obtain ⟨saved, hsaved⟩ := Option.isSome_iff_exists.mp (h.opened _ hj (.inr rfl))
  have hreport : (Saved.execute (some saved) (.saveNotice entry through)).2 =
      .notification (if saved.taken entry.id then .saveFailed else .saved) := rfl
  rw [hsaved, hreport, h.untaken hsaved hentry]
  rfl

/-- What was stored after the earlier part of a run counts as `before` for the later one. -/
theorem notices_safe {earlier later : List Happening}
    (hp : ∀ e ∈ (ideal none).run (earlier ++ later), ∀ action ∈ e.out, action.Placed) :
    NoticesSafe (storedNotices ((ideal none).last earlier).resource)
      ((ideal none).last (earlier ++ later)) := by
  have hsplit : (ideal none).run (earlier ++ later) = (ideal none).run earlier ++
      (ideal none).trace ((ideal none).last earlier) later := Reactive.trace_append ..
  rw [hsplit] at hp
  have hfirst : NoticesSafe [] ((ideal none).last earlier) := by
    refine Workers.crew_invariant (notices_keep []) ?_ earlier fun e he => hp e
      (List.mem_append_left _ he)
    refine ⟨by simp [storedNotices, unsavedNotices], ?_, by simp, fun held hl => ⟨by simp, by simp⟩,
      fun next hn => ?_, by simp, fun e he => by cases he⟩
    · intro e he
      cases he
    · cases hn
  have hmid : NoticesSafe (storedNotices ((ideal none).last earlier).resource)
      ((ideal none).last earlier) :=
    ⟨hfirst.distinct, hfirst.small, hfirst.forgets, hfirst.unread, hfirst.read, hfirst.opened, .refl _⟩
  have hsame : (ideal none).last (earlier ++ later) =
      (ideal none).final ((ideal none).last earlier) later := Reactive.final_append ..
  rw [hsame]
  exact Workers.crew_kept (notices_keep _) hmid later fun e he => hp e (List.mem_append_right _ he)

end

section
variable {message : Notice → Message} {earlier later : List Happening}

/-- In every run of the whole program from new storage: no two stored notices have one
place, an entry once stored stays until one a thousand places on is, an entry that a worker
has not saved yet can be, and the next place is beyond every entry. -/
theorem notices_kept (hv : Asks Operation.Valid ((system message none).run (earlier ++ later)))
    (hp : ∀ e ∈ (system message none).run (earlier ++ later), ∀ action ∈ e.out, action.Placed) :
    ∃ before after, NoticeRows message ((system message none).last earlier).resource before ∧
      NoticeRows message ((system message none).last (earlier ++ later)).resource after ∧
      (after.map Logged.id).Nodup ∧ Retains before after ∧
      (∀ job ∈ ((system message none).last (earlier ++ later)).jobs, ∀ entry through,
        job = ⟨.saveNotice entry through, none⟩ →
          (execute message ((system message none).last (earlier ++
            later)).resource (.saveNotice entry through)).2 =
            .notification .saved) ∧
      ∀ next, (coreOf ((system message none).last (earlier ++ later))).notifications.log = .ready next →
        ∀ e ∈ after, e.id < next := by
  have h0 : FileHolds message none none := trivial
  have hsplit : (system message none).run (earlier ++ later) = (system message none).run earlier ++
      (system message none).trace ((system message none).last earlier) later := Reactive.trace_append ..
  have hv₁ : Asks Operation.Valid ((system message none).run earlier) := by
    intro e he
    exact hv e (hsplit ▸ List.mem_append_left _ he)
  obtain ⟨-, -, hmatch₁⟩ := system_matches h0 hv₁
  obtain ⟨hsteps, -, hmatch⟩ := system_matches h0 hv
  have hplaced : ∀ e ∈ (ideal none).run (earlier ++ later), ∀ action ∈ e.out, action.Placed := by
    intro e' he'
    obtain ⟨e, he, -, hout⟩ := hsteps e' he'
    rw [hout]
    exact hp e he
  have hlast := notices_safe hplaced
  refine ⟨_, _, holds_rows hmatch₁.resource, holds_rows hmatch.resource, ?_, hlast.retains, ?_, ?_⟩
  · exact hlast.distinct.sublist ((List.sublist_append_left _ _).map _)
  · intro job hj entry through heq
    subst heq
    have hvalid : (Operation.saveNotice entry through).Valid := trivial
    rw [(execute_stands message).report _ _ _ hmatch.resource hvalid]
    exact hlast.save_succeeds (hmatch.jobs ▸ hj)
  · intro next hn e he
    have hcore : coreOf ((ideal none).last (earlier ++ later)) =
        coreOf ((system message none).last (earlier ++ later)) := congrArg core.last hmatch.taken
    exact (hlast.read next (hcore ▸ hn)).2 e (List.mem_append_left _ he)

end

theorem tests_kept : ∃ before after,
    NoticeRows (fun _ => noWords)
    ((system (fun _ => noWords) none).last (testedLife .initialise)).resource before ∧
    NoticeRows (fun _ => noWords)
      ((system (fun _ => noWords) none).last
        (testedLife .initialise ++ .restart :: testedLife .resume)).resource after ∧
    (after.map Logged.id).Nodup ∧ Retains before after := by
  have hvalid : ((system (fun _ => noWords) none).run
      (testedLife .initialise ++ .restart :: testedLife .resume)).all
      (fun e => e.out.all fun action => action.operation?.all fun operation =>
        decide operation.Valid) = true := by
    decide +kernel
  have hplaced : ((system (fun _ => noWords) none).run
      (testedLife .initialise ++ .restart :: testedLife .resume)).all
      (fun e => e.out.all fun action => action.logged?.all fun p =>
        decide ((p.1.id : Nat) ≤ i64Max)) = true := by
    decide +kernel
  have hplaces : ∀ e ∈ (system (fun _ => noWords) none).run
      (testedLife .initialise ++ .restart :: testedLife .resume),
      ∀ action ∈ e.out, action.Placed := by
    intro e he action ha entry through heq
    have h := List.all_eq_true.mp (List.all_eq_true.mp hplaced e he) action ha
    rw [heq] at h
    exact of_decide_eq_true h
  obtain ⟨before, after, hbefore, hafter, hdistinct, hretains, -⟩ :=
    notices_kept (asks_valid hvalid) hplaces
  exact ⟨before, after, hbefore, hafter, hdistinct, hretains⟩

end Windlass
