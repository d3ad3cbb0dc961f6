import Windlass.Reactive

/-!
# A machine with workers

A machine asks for work on a resource through its outputs. Its workers do the work
at the same time and in any order: a job is done at some moment, or it fails and
leaves the resource as it is, and its report is later one input to the machine.
When the machine is started again its jobs are gone, and the resource stays.
-/

namespace Workers

open Reactive

structure Job (ω ε : Type) where
  work : ω
  report : Option ε

/-- A machine, and how it is given work and told of it. -/
structure Crew (κ ι ο ω ε τ : Type) where
  machine : Machine κ ι ο
  work? : ο → Option ω
  failure : ω → ε
  deliver : τ → ε → ι
  reserved : ι → Bool

/-- The inputs the machine took since it was started, the resource and the jobs. -/
structure State (ι σ ω ε : Type) where
  taken : List ι
  resource : σ
  jobs : List (Job ω ε)

/-- What can happen: an input that no job reports, a job being done, a job
failing, a job's report being taken, and a new start. -/
inductive Act (ι τ : Type)
  | input (i : ι)
  | perform (k : Nat)
  | fail (k : Nat)
  | complete (k : Nat) (at' : τ)
  | restart

section
variable {κ ι ο σ ω ε τ : Type} (C : Crew κ ι ο ω ε τ) (perform : σ → ω → σ × ε)

/-- The machine takes an input, and the work it asks for becomes jobs. -/
def Crew.take (s : State ι σ ω ε) (i : ι) : State ι σ ω ε × List ο :=
  let out := (C.machine.step (C.machine.last s.taken) i).2
  ({ s with taken := s.taken ++ [i],
            jobs := s.jobs ++ (out.filterMap C.work?).map fun w => ⟨w, none⟩ }, out)

def Crew.step (s : State ι σ ω ε) : Act ι τ → State ι σ ω ε × List ο
  | .input i => if C.reserved i then (s, []) else C.take s i
  | .perform k =>
    match s.jobs[k]? with
    | some ⟨w, none⟩ =>
      ({ s with resource := (perform s.resource w).1,
                jobs := s.jobs.set k ⟨w, some (perform s.resource w).2⟩ }, [])
    | _ => (s, [])
  | .fail k =>
    match s.jobs[k]? with
    | some ⟨w, none⟩ => ({ s with jobs := s.jobs.set k ⟨w, some (C.failure w)⟩ }, [])
    | _ => (s, [])
  | .complete k at' =>
    match s.jobs[k]? with
    | some ⟨_, some e⟩ => C.take { s with jobs := s.jobs.eraseIdx k } (C.deliver at' e)
    | _ => (s, [])
  | .restart => ({ s with taken := [], jobs := [] }, [])

/-- The machine and its workers over a resource. -/
def Crew.over (resource : σ) : Machine (State ι σ ω ε) (Act ι τ) ο where
  init := { taken := [], resource := resource, jobs := [] }
  step := C.step perform

/-! ## What holds of every run -/

/-- The kinds of step that an invariant has to be kept by. -/
structure Crew.Keeps (ok : State ι σ ω ε → List ο → Prop) (I : State ι σ ω ε → Prop) : Prop where
  input : ∀ s i, I s → C.reserved i = false → ok (C.take s i).1 (C.take s i).2 → I (C.take s i).1
  perform : ∀ s k w, I s → s.jobs[k]? = some ⟨w, none⟩ →
    I { s with resource := (perform s.resource w).1,
               jobs := s.jobs.set k ⟨w, some (perform s.resource w).2⟩ }
  fail : ∀ s k w, I s → s.jobs[k]? = some ⟨w, none⟩ →
    I { s with jobs := s.jobs.set k ⟨w, some (C.failure w)⟩ }
  complete : ∀ s k w e at', I s → s.jobs[k]? = some ⟨w, some e⟩ →
    ok (C.take { s with jobs := s.jobs.eraseIdx k } (C.deliver at' e)).1
      (C.take { s with jobs := s.jobs.eraseIdx k } (C.deliver at' e)).2 →
    I (C.take { s with jobs := s.jobs.eraseIdx k } (C.deliver at' e)).1
  restart : ∀ s, I s → I { s with taken := [], jobs := [] }

variable {C} {perform}

variable {ok : State ι σ ω ε → List ο → Prop} {I : State ι σ ω ε → Prop}

theorem step_kept (hk : C.Keeps perform ok I) {s : State ι σ ω ε} (h : I s) (act : Act ι τ)
    (hok : ok (C.step perform s act).1 (C.step perform s act).2) : I (C.step perform s act).1 := by
  cases act with
  | input i =>
    unfold Crew.step at hok ⊢
    dsimp only at hok ⊢
    split at hok
    · next hr =>
      rw [if_pos hr]
      exact h
    · next hr =>
      rw [if_neg hr]
      exact hk.input s i h (by simpa using hr) hok
  | perform k =>
    unfold Crew.step
    dsimp only
    split
    · next w hj => exact hk.perform s k w h hj
    · exact h
  | fail k =>
    unfold Crew.step
    dsimp only
    split
    · next w hj => exact hk.fail s k w h hj
    · exact h
  | complete k at' =>
    unfold Crew.step at hok ⊢
    dsimp only at hok ⊢
    split at hok
    · next w e hj => exact hk.complete s k w e at' h hj hok
    · exact h
  | restart => exact hk.restart s h

/-- What holds before some steps and is kept by every kind of step holds after them,
where they do nothing else than they may. -/
theorem crew_kept {resource : σ} (hk : C.Keeps perform ok I) {s : State ι σ ω ε} (h : I s)
    (acts : List (Act ι τ))
    (hok : ∀ e ∈ (C.over perform resource).trace s acts, ok e.after e.out) :
    I ((C.over perform resource).final s acts) := by
  induction acts generalizing s with
  | nil => exact h
  | cons act acts ih =>
    exact ih (step_kept hk h act (hok _ List.mem_cons_self)) fun e he => hok e (List.mem_cons_of_mem _ he)

theorem crew_invariant {resource : σ} (hk : C.Keeps perform ok I)
    (h0 : I { taken := [], resource := resource, jobs := [] }) (acts : List (Act ι τ))
    (hok : ∀ e ∈ (C.over perform resource).run acts, ok e.after e.out) :
    I ((C.over perform resource).last acts) :=
  crew_kept hk h0 acts hok

/-! ## The jobs -/

section
variable {jobs : List (Job ω ε)} {k : Nat} {job : Job ω ε}

theorem jobs_split (hj : jobs[k]? = some job) : jobs = jobs.take k ++ job :: jobs.drop (k + 1) ∧
    jobs.eraseIdx k = jobs.take k ++ jobs.drop (k + 1) ∧
    ∀ job', jobs.set k job' = jobs.take k ++ job' :: jobs.drop (k + 1) := by
  obtain ⟨hk, rfl⟩ := List.getElem?_eq_some_iff.mp hj
  refine ⟨?_, List.eraseIdx_eq_take_drop_succ .., fun job' => ?_⟩
  · rw [List.getElem_cons_drop, List.take_append_drop]
  · rw [List.set_eq_take_append_cons_drop, if_pos hk]

/-- What is gathered from the jobs, where one of them ends. -/
theorem gather_split {β : Type} (f : Job ω ε → Option β) (hj : jobs[k]? = some job) :
    (jobs.filterMap f).Perm ((f job).toList ++ (jobs.eraseIdx k).filterMap f) ∧
      ∀ job', ((jobs.set k job').filterMap f).Perm ((f job').toList ++
        (jobs.eraseIdx k).filterMap f) := by
  obtain ⟨hsplit, herase, hset⟩ := jobs_split hj
  have hperm : ∀ job', ((jobs.take k ++ job' :: jobs.drop (k + 1)).filterMap f).Perm
      ((f job').toList ++ (jobs.take k ++ jobs.drop (k + 1)).filterMap f) := by
    intro job'
    refine (List.perm_middle.filterMap f).trans ?_
    rw [List.filterMap_cons]
    cases f job' <;> exact .refl _
  rw [herase]
  refine ⟨?_, fun job' => (hset job') ▸ hperm job'⟩
  conv_lhs => rw [hsplit]
  exact hperm job

theorem gather_set {β : Type} {f : Job ω ε → Option β} (hj : jobs[k]? = some job) {job' : Job ω ε}
    (hf : f job' = f job) :
    (jobs.set k job').filterMap f = jobs.filterMap f := by
  obtain ⟨hsplit, -, hset⟩ := jobs_split hj
  rw [hset]
  conv_rhs => rw [hsplit]
  rw [List.filterMap_append, List.filterMap_append, List.filterMap_cons, List.filterMap_cons, hf]

theorem gather_erase {β : Type} {f : Job ω ε → Option β} (hj : jobs[k]? = some job) (hf : f job = none) :
    (jobs.eraseIdx k).filterMap f = jobs.filterMap f := by
  obtain ⟨hsplit, herase, -⟩ := jobs_split hj
  rw [herase]
  conv_rhs => rw [hsplit]
  rw [List.filterMap_append, List.filterMap_append, List.filterMap_cons, hf]

end

/-! ## Answers -/

section
variable {γ : Type} (C) (kind : ω → Option γ) (answers : ι → Option γ)

/-- The kinds of the work that a run asks for. -/
def Crew.asked (run : List (Entry κ ι ο)) : List γ :=
  run.flatMap fun e => (e.out.filterMap C.work?).filterMap kind

/-- The kinds of the work whose reports a run takes. -/
def answered (run : List (Entry κ ι ο)) : List γ := run.filterMap fun e => answers e.input

/-- The kinds of the jobs under way. -/
def underWay (jobs : List (Job ω ε)) : List γ := jobs.filterMap fun job => kind job.work

/-- An input tells what kind of work it reports, and only reports tell one. -/
structure Crew.Replies (perform : σ → ω → σ × ε) : Prop where
  perform : ∀ r w at', answers (C.deliver at' (perform r w).2) = kind w
  failure : ∀ w at', answers (C.deliver at' (C.failure w)) = kind w
  input : ∀ i, C.reserved i = false → answers i = none

/-- What was asked for was answered, or is under way. -/
structure Crew.Owes [DecidableEq γ] (s : State ι σ ω ε) : Prop where
  balance : (C.asked kind (C.machine.run s.taken)).Perm
    (answered answers (C.machine.run s.taken) ++ underWay kind s.jobs)
  reports : ∀ job ∈ s.jobs, ∀ e, job.report = some e → ∀ at', answers (C.deliver at' e) = kind job.work
  once : Along
    (fun pre e => ∀ k ∈ answers e.input, (answered answers pre).count k < (C.asked kind pre).count k)
    (C.machine.run s.taken)

variable {C} {kind} {answers}

theorem underWay_asked (works : List ω) :
    underWay kind (works.map fun w => (⟨w, none⟩ : Job ω ε)) = works.filterMap kind := List.filterMap_map

theorem owes_take [DecidableEq γ] {s : State ι σ ω ε} {i : ι}
    (hb : (C.asked kind (C.machine.run s.taken)).Perm
      (answered answers (C.machine.run s.taken) ++ ((answers i).toList ++ underWay kind s.jobs)))
    (hr : ∀ job ∈ s.jobs, ∀ e, job.report = some e → ∀ at', answers (C.deliver at' e) = kind job.work)
    (ho : Along
      (fun pre e => ∀ k ∈ answers e.input, (answered answers pre).count k < (C.asked kind pre).count k)
      (C.machine.run s.taken)) : C.Owes kind answers (C.take s i).1 := by
  have hrun : C.machine.run (C.take s i).1.taken =
      C.machine.run s.taken ++ [C.machine.entry (C.machine.last s.taken) i] := run_snoc ..
  have hasked : C.asked kind (C.machine.run (C.take s i).1.taken) =
    C.asked kind (C.machine.run s.taken) ++
      ((C.machine.step (C.machine.last s.taken) i).2.filterMap C.work?).filterMap kind := by
    rw [hrun, Crew.asked, List.flatMap_append]
    simp [Crew.asked, Machine.entry]
  have hanswered : answered answers (C.machine.run (C.take s i).1.taken) =
      answered answers (C.machine.run s.taken) ++ (answers i).toList := by
    rw [hrun, answered, List.filterMap_append]
    cases hi : answers i <;> simp [answered, Machine.entry, hi]
  have hjobs : underWay kind (C.take s i).1.jobs = underWay kind s.jobs ++
      ((C.machine.step (C.machine.last s.taken) i).2.filterMap C.work?).filterMap kind := by
    unfold underWay Crew.take
    rw [List.filterMap_append]
    exact congrArg (_ ++ ·) (underWay_asked _)
  constructor
  · rw [hasked, hanswered, hjobs, ← List.append_assoc, List.append_assoc (answered _ _)]
    exact hb.append_right _
  · intro job hjob
    rcases List.mem_append.mp hjob with hjob | hjob
    · exact hr job hjob
    · obtain ⟨w, -, rfl⟩ := List.mem_map.mp hjob
      intro e he
      cases he
  · rw [hrun]
    intro pre e post hcut
    rcases snoc_split hcut with ⟨rfl, rfl, rfl⟩ | ⟨rest, -, hrest⟩
    · intro k hk
      have hcount := hb.count_eq k
      rw [List.count_append, List.count_append] at hcount
      have hone : 1 ≤ (answers i).toList.count k := by
        rw [show answers i = some k from hk]
        simp
      omega
    · exact ho pre e rest hrest

theorem owes_done [DecidableEq γ] {s : State ι σ ω ε} {k : Nat} {w : ω} {e : ε}
    (h : C.Owes kind answers s)
    (hj : s.jobs[k]? = some ⟨w, none⟩) (he : ∀ at', answers (C.deliver at' e) = kind w) (resource : σ) :
    C.Owes kind answers { s with resource := resource, jobs := s.jobs.set k ⟨w, some e⟩ } := by
  refine ⟨?_, fun job hjob e' he' => ?_, h.once⟩
  · have hsame : underWay kind (s.jobs.set k ⟨w, some e⟩) = underWay kind s.jobs := gather_set hj rfl
    dsimp only
    rw [hsame]
    exact h.balance
  · rcases List.mem_or_eq_of_mem_set hjob with hold | rfl
    · exact h.reports job hold e' he'
    · cases he'
      exact he

theorem owes_new [DecidableEq γ] (s : State ι σ ω ε) :
    C.Owes kind answers { s with taken := [], jobs := [] } :=
  ⟨.nil, by simp, fun pre e post hcut => by simp [Machine.run, Machine.trace] at hcut⟩

/-- What is asked for is answered once by its worker, in every process. -/
theorem owes_keeps [DecidableEq γ] (hr : C.Replies kind answers perform)
    (ok : State ι σ ω ε → List ο → Prop) :
    C.Keeps perform ok (C.Owes kind answers) where
  input s i h hi _ := by
    refine owes_take ?_ h.reports h.once
    rw [hr.input i hi]
    exact h.balance
  perform s k w h hj := owes_done h hj (hr.perform s.resource w) _
  fail s k w h hj := owes_done h hj (hr.failure w) _
  complete s k w e at' h hj _ := by
    obtain ⟨hperm, -⟩ := gather_split (fun job : Job ω ε => kind job.work) hj
    refine owes_take ?_ (fun job hjob => h.reports job (List.mem_of_mem_eraseIdx hjob)) h.once
    rw [h.reports _ (List.mem_of_getElem? hj) e rfl at']
    exact h.balance.trans (hperm.append_left _)
  restart s _ := owes_new s

end

/-! ## Another resource -/

/-- Work that is asked for from one resource or from another that stands for it is
reported alike, and leaves them standing for each other. -/
structure Stands {σ' : Type} (perform : σ → ω → σ × ε) (perform' : σ' → ω → σ' × ε) (valid : ω → Prop)
    (R : σ → σ' → Prop) : Prop where
  report : ∀ r r' w, R r r' → valid w → (perform r w).2 = (perform' r' w).2
  after : ∀ r r' w, R r r' → valid w → R (perform r w).1 (perform' r' w).1

/-- States that differ in the resource alone, where one stands for the other. -/
structure Matches {σ' : Type} (valid : ω → Prop) (R : σ → σ' → Prop) (s : State ι σ ω ε)
    (s' : State ι σ' ω ε) : Prop where
  taken : s'.taken = s.taken
  jobs : s'.jobs = s.jobs
  valid : ∀ job ∈ s.jobs, valid job.work
  resource : R s.resource s'.resource

variable {σ' : Type} {perform' : σ' → ω → σ' × ε} {valid : ω → Prop} {R : σ → σ' → Prop}

theorem mem_set_work {jobs : List (Job ω ε)} {k : Nat} {w : ω} {r r' : Option ε}
    (hj : jobs[k]? = some ⟨w, r⟩)
    {job : Job ω ε} (h : job ∈ jobs.set k ⟨w, r'⟩) : ∃ old ∈ jobs, old.work = job.work := by
  rcases List.mem_or_eq_of_mem_set h with h | rfl
  · exact ⟨job, h, rfl⟩
  · exact ⟨_, List.mem_of_getElem? hj, rfl⟩

theorem take_matches {s : State ι σ ω ε} {s' : State ι σ' ω ε} (h : Matches valid R s s') (i : ι)
    (hok : ∀ o ∈ (C.take s i).2, ∀ w ∈ C.work? o, valid w) :
    (C.take s' i).2 = (C.take s i).2 ∧ Matches valid R (C.take s i).1 (C.take s' i).1 := by
  unfold Crew.take at hok ⊢
  rw [h.taken, h.jobs]
  refine ⟨rfl, rfl, rfl, fun job hj => ?_, h.resource⟩
  rcases List.mem_append.mp hj with hj | hj
  · exact h.valid job hj
  · obtain ⟨w, hw, rfl⟩ := List.mem_map.mp hj
    obtain ⟨o, ho, hwork⟩ := List.mem_filterMap.mp hw
    exact hok o ho w hwork

theorem step_matches (hs : Stands perform perform' valid R) {s : State ι σ ω ε} {s' : State ι σ' ω ε}
    (h : Matches valid R s s') (act : Act ι τ)
    (hok : ∀ o ∈ (C.step perform s act).2, ∀ w ∈ C.work? o, valid w) :
    (C.step perform' s' act).2 = (C.step perform s act).2 ∧
      Matches valid R (C.step perform s act).1 (C.step perform' s' act).1 := by
  -- only a worker at work looks at the resource, and it reports the same over both
  cases act with
  | input i =>
    unfold Crew.step at hok ⊢
    dsimp only at hok ⊢
    split at hok
    · next hr =>
      rw [if_pos hr, if_pos hr]
      exact ⟨rfl, h⟩
    · next hr =>
      rw [if_neg hr, if_neg hr]
      exact take_matches h i hok
  | perform k =>
    unfold Crew.step
    dsimp only
    rw [h.jobs]
    split
    · next w hj =>
      have hvalid : valid w := h.valid _ (List.mem_of_getElem? hj)
      refine ⟨rfl, h.taken, ?_, fun job hjob => ?_, hs.after _ _ w h.resource hvalid⟩
      · rw [hs.report _ _ w h.resource hvalid]
      · obtain ⟨old, ho, hwork⟩ := mem_set_work hj hjob
        exact hwork ▸ h.valid old ho
    · exact ⟨rfl, h⟩
  | fail k =>
    unfold Crew.step
    dsimp only
    rw [h.jobs]
    split
    · next w hj =>
      refine ⟨rfl, h.taken, rfl, fun job hjob => ?_, h.resource⟩
      obtain ⟨old, ho, hwork⟩ := mem_set_work hj hjob
      exact hwork ▸ h.valid old ho
    · exact ⟨rfl, h⟩
  | complete k at' =>
    unfold Crew.step at hok ⊢
    rw [h.jobs]
    dsimp only at hok ⊢
    split at hok
    · have herased : Matches valid R { s with jobs := s.jobs.eraseIdx k }
          { s' with jobs := s.jobs.eraseIdx k } :=
        ⟨h.taken, rfl, fun job hjob => h.valid job (List.mem_of_mem_eraseIdx hjob), h.resource⟩
      exact take_matches herased _ hok
    · exact ⟨rfl, h⟩
  | restart => exact ⟨rfl, rfl, rfl, by simp [Crew.step], h.resource⟩

/-- Over a resource and over one that stands for it, the machine does the same. -/
theorem run_matches (hs : Stands perform perform' valid R) {r : σ} {r' : σ'} (hr : R r r')
    (acts : List (Act ι τ))
    (hok : ∀ e ∈ (C.over perform r).run acts, ∀ o ∈ e.out, ∀ w ∈ C.work? o, valid w) :
    (∀ e' ∈ (C.over perform' r').run acts, ∃ e ∈ (C.over perform r).run acts,
        e'.after.taken = e.after.taken ∧ e'.out = e.out) ∧
      ((C.over perform' r').run acts).map Entry.out = ((C.over perform r).run acts).map Entry.out ∧
      Matches valid R ((C.over perform r).last acts) ((C.over perform' r').last acts) := by
  -- on the acts, one step of both programs at a time
  induction acts using List.reverseRecOn with
  | nil => exact ⟨by simp, rfl, rfl, rfl, by simp [Crew.over], hr⟩
  | append_singleton acts act ih =>
    rw [run_snoc] at hok
    obtain ⟨hsteps, hout, hlast⟩ := ih fun e he => hok e (List.mem_append_left _ he)
    obtain ⟨hsame, hafter⟩ := step_matches hs hlast act
      (hok _ (List.mem_append_right _ (List.mem_singleton_self _)))
    rw [run_snoc, run_snoc, List.map_append, List.map_append, hout, last_snoc, last_snoc]
    refine ⟨fun e' he' => ?_, congrArg (_ ++ [·]) hsame, hafter⟩
    rcases List.mem_append.mp he' with he' | he'
    · obtain ⟨e, he, hboth⟩ := hsteps e' he'
      exact ⟨e, List.mem_append_left _ he, hboth⟩
    · rw [List.mem_singleton.mp he']
      exact ⟨_, List.mem_append_right _ (List.mem_singleton_self _), hafter.taken, hsame⟩

end

end Workers
