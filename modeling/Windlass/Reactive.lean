import Mathlib

/-!
# Machines and their runs

A machine answers each input with a new state and a list of outputs. A run is
the list of its steps, each with the state before and after it; facts about
runs are proved by appending one step at a time.
-/

namespace Reactive

structure Machine (σ ι ο : Type) where
  init : σ
  step : σ → ι → σ × List ο

/-- One step of a run. -/
structure Entry (σ ι ο : Type) where
  before : σ
  input : ι
  after : σ
  out : List ο

section
variable {σ ι ο : Type} (M : Machine σ ι ο)

def Machine.entry (s : σ) (i : ι) : Entry σ ι ο :=
  { before := s, input := i, after := (M.step s i).1, out := (M.step s i).2 }

def Machine.final : σ → List ι → σ
  | s, [] => s
  | s, i :: is => Machine.final (M.step s i).1 is

def Machine.trace : σ → List ι → List (Entry σ ι ο)
  | _, [] => []
  | s, i :: is => M.entry s i :: Machine.trace (M.step s i).1 is

def Machine.run (is : List ι) : List (Entry σ ι ο) := M.trace M.init is

def Machine.last (is : List ι) : σ := M.final M.init is

theorem final_append (s : σ) (is js : List ι) : M.final s (is ++ js) = M.final (M.final s is) js := by
  induction is generalizing s with
  | nil => rfl
  | cons i is ih => exact ih (M.step s i).1

theorem trace_append (s : σ) (is js : List ι) :
    M.trace s (is ++ js) = M.trace s is ++ M.trace (M.final s is) js := by
  induction is generalizing s with
  | nil => rfl
  | cons i is ih => simp only [List.cons_append, Machine.trace, Machine.final, ih]

theorem run_snoc (is : List ι) (i : ι) : M.run (is ++ [i]) = M.run is ++ [M.entry (M.last is) i] :=
  trace_append M M.init is [i]

theorem last_snoc (is : List ι) (i : ι) : M.last (is ++ [i]) = (M.step (M.last is) i).1 :=
  final_append M M.init is [i]

theorem last_cut (is js : List ι) (i : ι) :
    M.last (is ++ i :: js) = M.final (M.entry (M.last is) i).after js :=
  final_append M M.init is (i :: js)

@[simp] theorem run_nil : M.run [] = [] := rfl

@[simp] theorem last_nil : M.last [] = M.init := rfl

theorem run_length (is : List ι) : (M.run is).length = is.length := by
  induction is using List.reverseRecOn with
  | nil => rfl
  | append_singleton is i ih => rw [run_snoc]; simp [ih]

theorem trace_inputs (s : σ) (is : List ι) : (M.trace s is).map Entry.input = is := by
  induction is generalizing s with
  | nil => rfl
  | cons i is ih => exact congrArg (i :: ·) (ih (M.step s i).1)

theorem forall_mem_run {P : ι → Prop} {is : List ι} : (∀ e ∈ M.run is, P e.input) ↔ ∀ i ∈ is, P i := by
  conv_rhs => rw [← trace_inputs M M.init is]
  exact List.forall_mem_map.symm

/-- The steps before a given step of a run are themselves a run, the step starts
where they end, and the steps after it go on from there. -/
theorem run_split {is : List ι} {pre post : List (Entry σ ι ο)} {e : Entry σ ι ο}
    (h : M.run is = pre ++ e :: post) :
    ∃ js i ks, is = js ++ i :: ks ∧ pre = M.run js ∧ e = M.entry (M.last js) i ∧
    post = M.trace e.after ks := by
  have hl := run_length M is
  rw [h] at hl
  simp only [List.length_append, List.length_cons] at hl
  have hlt : pre.length < is.length := by omega
  have his : is = is.take pre.length ++ is[pre.length] :: is.drop (pre.length + 1) := by
    rw [List.getElem_cons_drop, List.take_append_drop]
  refine ⟨is.take pre.length, is[pre.length], is.drop (pre.length + 1), his, ?_⟩
  have hr : M.run is = M.run (is.take pre.length) ++
    (M.entry (M.last (is.take pre.length)) is[pre.length] ::
      M.trace (M.step (M.last (is.take pre.length)) is[pre.length]).1 (is.drop (pre.length + 1))) := by
    conv_lhs => rw [his]
    exact trace_append M M.init _ _
  rw [h] at hr
  have hlen : pre.length = (M.run (is.take pre.length)).length := by
    rw [run_length, List.length_take]
    omega
  obtain ⟨hpre, htail⟩ := List.append_inj hr hlen
  obtain ⟨he, hpost⟩ := List.cons.inj htail
  exact ⟨hpre, he, he ▸ hpost⟩

theorem run_stretch (is js : List ι) (i k : ι) : M.run (is ++ i :: (js ++ [k])) =
    M.run is ++ M.entry (M.last is) i ::
      (M.trace (M.step (M.last is) i).1 js ++ [M.entry (M.last (is ++ i :: js)) k]) := by
  have hl : M.last (is ++ i :: js) = M.final (M.step (M.last is) i).1 js := last_cut M is js i
  have ht : M.trace (M.last is) (i :: (js ++ [k])) =
      M.entry (M.last is) i :: (M.trace (M.step (M.last is) i).1 js ++
        [M.entry (M.final (M.step (M.last is) i).1 js) k]) :=
    congrArg (M.entry (M.last is) i :: ·) (trace_append M _ js [k])
  rw [hl, ← ht]
  exact trace_append M M.init is (i :: (js ++ [k]))

theorem mem_run {is : List ι} {e : Entry σ ι ο} (h : e ∈ M.run is) :
    ∃ js i, e = M.entry (M.last js) i := by
  obtain ⟨pre, post, hsplit⟩ := List.append_of_mem h
  obtain ⟨js, i, -, -, -, he, -⟩ := run_split M hsplit
  exact ⟨js, i, he⟩

/-- What holds at the start of a stretch and is kept by each of its steps holds
at the step that follows it. -/
theorem trace_until {I : σ → Prop} {P : Entry σ ι ο → Prop}
    (hs : ∀ s i, I s → P (M.entry s i) → I (M.step s i).1) {s : σ} {is : List ι}
    {mid post : List (Entry σ ι ο)} {f : Entry σ ι ο} (h : M.trace s is = mid ++ f :: post) (h0 : I s)
    (hP : ∀ g ∈ mid, P g) : ∃ t i, I t ∧ f = M.entry t i := by
  induction mid generalizing s is with
  | nil =>
    cases is with
    | nil => cases h
    | cons i is => exact ⟨s, i, h0, (List.cons.inj h).1.symm⟩
  | cons g mid ih =>
    cases is with
    | nil => cases h
    | cons i is =>
      obtain ⟨hg, ht⟩ := List.cons.inj h
      exact ih ht (hs s i h0 (hg ▸ hP g (by simp))) fun g' hg' => hP g' (by simp [hg'])

/-- What holds at the start of a stretch and is kept by each allowed step that does
not end it holds to the last, or some step of the stretch ends it. -/
theorem trace_kept_or {I : σ → Prop} {H Q : List (Entry σ ι ο) → Entry σ ι ο → Prop}
    (hs : ∀ tr s i, I s → H tr (M.entry s i) → I (M.step s i).1 ∨ Q tr (M.entry s i)) {s : σ}
    {is : List ι}
    {tr : List (Entry σ ι ο)} (h0 : I s)
    (hH : ∀ pre e post, M.trace s is = pre ++ e :: post → H (tr ++ pre) e) :
    I (M.final s is) ∨ ∃ pre e post, M.trace s is = pre ++ e :: post ∧ Q (tr ++ pre) e := by
  induction is generalizing s tr with
  | nil => exact .inl h0
  | cons i is ih =>
    have hfirst : H tr (M.entry s i) := by
      have hcut := hH [] (M.entry s i) (M.trace (M.step s i).1 is) rfl
      rwa [List.append_nil] at hcut
    obtain hkept | hend := hs tr s i h0 hfirst
    · have hrest : ∀ pre e post, M.trace (M.step s i).1 is = pre ++ e :: post →
        H (tr ++ [M.entry s i] ++ pre) e := by
        intro pre e post hcut
        rw [List.append_assoc]
        exact hH (M.entry s i :: pre) e post (congrArg (M.entry s i :: ·) hcut)
      obtain hlast | ⟨pre, e, post, hcut, hq⟩ := ih hkept hrest
      · exact .inl hlast
      · refine .inr ⟨M.entry s i :: pre, e, post, congrArg (M.entry s i :: ·) hcut, ?_⟩
        rwa [List.append_assoc] at hq
    · refine .inr ⟨[], M.entry s i, M.trace (M.step s i).1 is, rfl, ?_⟩
      rwa [List.append_nil]

/-- What holds before any step and is kept by every allowed step holds of every
run whose steps are allowed. -/
theorem run_invariant {I : List (Entry σ ι ο) → σ → Prop} {H : List (Entry σ ι ο) → Prop}
    (hH : ∀ tr e, H (tr ++ [e]) → H tr) (h0 : I [] M.init)
    (hs : ∀ tr s i, I tr s → H (tr ++ [M.entry s i]) → I (tr ++ [M.entry s i]) (M.step s i).1) :
    ∀ is, H (M.run is) → I (M.run is) (M.last is) := by
  intro is
  induction is using List.reverseRecOn with
  | nil => intro _; exact h0
  | append_singleton is i ih =>
    intro h
    rw [run_snoc] at h ⊢
    rw [last_snoc]
    exact hs _ _ _ (ih (hH _ _ h)) h

/-- The invariant rule for states alone, over every run. -/
theorem last_invariant {I : σ → Prop} (h0 : I M.init) (hs : ∀ s i, I s → I (M.step s i).1) :
    ∀ is, I (M.last is) := fun is =>
  run_invariant M (I := fun _ s => I s) (H := fun _ => True) (fun _ _ h => h) h0
    (fun _ s i h _ => hs s i h) is trivial

/-- What a step makes of the state, and what it puts out. -/
def Entry.effect (e : Entry σ ι ο) : σ × List ο := (e.after, e.out)

/-- Runs that part at one input, which has the same effect in both, have the same
effects throughout. -/
theorem run_effects {is js : List ι} {i j : ι} (h : M.step (M.last is) i = M.step (M.last is) j) :
    (M.run (is ++ i :: js)).map Entry.effect = (M.run (is ++ j :: js)).map Entry.effect := by
  have hentry : (M.entry (M.last is) i).effect = (M.entry (M.last is) j).effect := h
  have hafter : (M.step (M.last is) i).1 = (M.step (M.last is) j).1 := congrArg Prod.fst h
  unfold Machine.run Machine.last at *
  rw [trace_append, trace_append, List.map_append, List.map_append]
  simp only [Machine.trace, List.map_cons, hentry, hafter]

/-- The machine with a log beside its state that takes in every input. -/
def Machine.noting {γ : Type} (next : γ → σ → ι → γ) (g : γ) : Machine (σ × γ) ι ο where
  init := (M.init, g)
  step s i := (((M.step s.1 i).1, next s.2 s.1 i), (M.step s.1 i).2)

/-! ## Restarts -/

/-- The steps of a machine that is started again for every list of inputs. -/
def Machine.lives (runs : List (List ι)) : List (Entry σ ι ο) := runs.flatMap M.run

theorem lives_snoc (runs : List (List ι)) (is : List ι) :
    M.lives (runs ++ [is]) = M.lives runs ++ M.run is := by
  simp [Machine.lives]

/-- A log kept along the steps of finished runs and of the run under way: `next`
writes into it, `renew` is what a start makes of it. -/
def Machine.log {γ : Type} (next : γ → Entry σ ι ο → γ) (renew : γ → γ) (g : γ)
    (runs : List (List ι)) (is : List ι) : γ :=
  (M.run is).foldl next (renew (runs.foldl (fun g is => (M.run is).foldl next (renew g)) g))

section
variable {γ : Type} {next : γ → Entry σ ι ο → γ} {renew : γ → γ}

/-- What holds before any step, is kept by every allowed step and by starting
again, holds of every history whose steps are allowed. -/
theorem log_invariant {g : γ} {I : List (Entry σ ι ο) → γ → σ → Prop} {H : List (Entry σ ι ο) → Prop}
    (hH : ∀ tr tr', H (tr ++ tr') → H tr) (h0 : I [] g M.init)
    (hr : ∀ tr g s, I tr g s → I tr (renew g) M.init)
    (hs : ∀ tr g s i, I tr g s → H (tr ++ [M.entry s i]) →
      I (tr ++ [M.entry s i]) (next g (M.entry s i)) (M.step s i).1) :
    ∀ runs is, H (M.lives runs ++ M.run is) →
    I (M.lives runs ++ M.run is) (M.log next renew g runs is) (M.last is) := by
  have hrun : ∀ tr g, I tr g M.init → ∀ is, H (tr ++ M.run is) →
      I (tr ++ M.run is) ((M.run is).foldl next g) (M.last is) := by
    intro tr g htr is
    induction is using List.reverseRecOn with
    | nil =>
      intro _
      rw [run_nil, List.append_nil]
      exact htr
    | append_singleton is i ih =>
      intro h
      rw [run_snoc, ← List.append_assoc] at h ⊢
      rw [last_snoc, List.foldl_append]
      exact hs _ _ _ _ (ih (hH _ _ h)) h
  have hlives : ∀ runs, H (M.lives runs) →
      ∃ s, I (M.lives runs) (runs.foldl (fun g is => (M.run is).foldl next (renew g)) g) s := by
    intro runs
    -- over the runs that ended, and then within the one under way
    induction runs using List.reverseRecOn with
    | nil => intro _; exact ⟨M.init, h0⟩
    | append_singleton runs is ih =>
      intro h
      rw [lives_snoc] at h ⊢
      obtain ⟨s, hi⟩ := ih (hH _ _ h)
      rw [List.foldl_append]
      exact ⟨M.last is, hrun _ _ (hr _ _ _ hi) is h⟩
  intro runs is h
  obtain ⟨s, hi⟩ := hlives runs (hH _ _ h)
  exact hrun _ _ (hr _ _ _ hi) is h

end

theorem lives_invariant {I : List (Entry σ ι ο) → σ → Prop} {H : List (Entry σ ι ο) → Prop}
    (hH : ∀ tr tr', H (tr ++ tr') → H tr) (h0 : I [] M.init) (hr : ∀ tr s, I tr s → I tr M.init)
    (hs : ∀ tr s i, I tr s → H (tr ++ [M.entry s i]) → I (tr ++ [M.entry s i]) (M.step s i).1) :
    ∀ runs, H (M.lives runs) → I (M.lives runs) M.init := by
  intro runs h
  have hlog := @log_invariant σ ι ο M Unit (fun _ _ => ()) id () (fun tr _ s => I tr s) H
    hH h0 (fun tr _ s => hr tr s) (fun tr _ s i => hs tr s i) runs []
  rw [run_nil, List.append_nil] at hlog
  exact hlog h

end

/-! ## Chains of small steps -/

/-- Small steps one after another, with the outputs of each in order. -/
inductive Chain {σ ο : Type} (S : σ → List ο → σ → Prop) : σ → List ο → σ → Prop
  | refl (s : σ) : Chain S s [] s
  | tail {s t u : σ} {out out' : List ο} (h : Chain S s out t) (hs : S t out' u) : Chain S s (out ++
      out') u

section
variable {σ ο : Type} {S : σ → List ο → σ → Prop} {s t u : σ} {out out' : List ο}

theorem Chain.single (h : S s out t) : Chain S s out t := (Chain.refl s).tail h

theorem Chain.trans (h : Chain S s out t) (h' : Chain S t out' u) : Chain S s (out ++ out') u := by
  induction h' with
  | refl =>
    rw [List.append_nil]
    exact h
  | tail _ hs ih =>
    rw [← List.append_assoc]
    exact ih.tail hs

/-- What every small step keeps, together with a log that takes in its outputs,
holds at the end of a chain. -/
theorem Chain.logged {γ : Type} {next : γ → ο → γ} {I : γ → σ → Prop}
    (hs : ∀ g s out t, I g s → S s out t → I (out.foldl next g) t) (h : Chain S s out t) {g : γ}
    (h0 : I g s) :
    I (out.foldl next g) t := by
  induction h with
  | refl => exact h0
  | tail _ hstep ih =>
    rw [List.foldl_append]
    exact hs _ _ _ _ ih hstep

theorem Chain.sent {I : List ο → σ → Prop} (hs : ∀ sent s out t, I sent s → S s out t → I (sent ++ out) t)
    (h : Chain S s out t) {sent : List ο} (h0 : I sent s) : I (sent ++ out) t := by
  induction h with
  | refl =>
    rw [List.append_nil]
    exact h0
  | tail _ hstep ih =>
    rw [← List.append_assoc]
    exact hs _ _ _ _ ih hstep

theorem Chain.kept {I : σ → Prop} (hs : ∀ s out t, I s → S s out t → I t) (h : Chain S s out t)
    (h0 : I s) : I t :=
  @Chain.logged σ ο S s t out Unit (fun g _ => g) (fun _ s => I s) (fun _ => hs) h () h0

end

/-! ## What holds at every step, given those before it -/

section
variable {α : Type} {P : List α → α → Prop}

def Along (P : List α → α → Prop) (l : List α) : Prop := ∀ pre e post, l = pre ++ e :: post → P pre e

/-- Where a list with one more element at its end is cut. -/
theorem snoc_split {l pre post : List α} {a b : α} (h : l ++ [b] = pre ++ a :: post) :
    (pre = l ∧ a = b ∧ post = []) ∨ ∃ rest, post = rest ++ [b] ∧ l = pre ++ a :: rest := by
  rcases List.eq_nil_or_concat post with rfl | ⟨rest, c, rfl⟩
  · obtain ⟨hl, ha⟩ := List.append_inj' h rfl
    exact .inl ⟨hl.symm, (List.cons.inj ha).1.symm, rfl⟩
  · rw [List.concat_eq_append, ← List.cons_append, ← List.append_assoc] at h
    obtain ⟨hl, hb⟩ := List.append_inj' h rfl
    cases hb
    exact .inr ⟨rest, List.concat_eq_append, hl⟩

theorem Along.left {l l' : List α} (h : Along P (l ++ l')) : Along P l := by
  intro pre e post hl
  refine h pre e (post ++ l') ?_
  rw [hl, List.append_assoc, List.cons_append]

theorem Along.last {l : List α} {e : α} (h : Along P (l ++ [e])) : P l e := h l e [] rfl

theorem along_iff {l : List α} : Along P l ↔ ∀ k : Fin l.length, P (l.take k) l[k] := by
  constructor
  · intro h k
    refine h _ _ (l.drop (k + 1)) ?_
    rw [Fin.getElem_fin, List.getElem_cons_drop, List.take_append_drop]
  · rintro h pre e post rfl
    simpa using h ⟨pre.length, by simp⟩

instance {l : List α} [∀ pre e, Decidable (P pre e)] : Decidable (Along P l) :=
  decidable_of_iff _ along_iff.symm

/-- The elements of a list, each with those after it. -/
def cuts : List α → List (α × List α)
  | [] => []
  | a :: l => (a, l) :: cuts l

theorem cuts_snoc (l : List α) (a : α) :
    cuts (l ++ [a]) = (cuts l).map (fun p => (p.1, p.2 ++ [a])) ++ [(a, [])] := by
  induction l with
  | nil => rfl
  | cons b l ih => simp only [List.cons_append, cuts, ih, List.map_cons]

theorem mem_cuts {l : List α} {a : α} (h : a ∈ l) : ∃ since, (a, since) ∈ cuts l := by
  induction l with
  | nil => cases h
  | cons b l ih =>
    rcases List.mem_cons.mp h with rfl | h
    · exact ⟨l, List.mem_cons_self⟩
    · obtain ⟨since, hs⟩ := ih h
      exact ⟨since, List.mem_cons_of_mem _ hs⟩

theorem mem_cuts_split (l : List α) (a : α) (l' : List α) : (a, l') ∈ cuts (l ++ a :: l') := by
  induction l with
  | nil => exact List.mem_cons_self
  | cons b l ih => exact List.mem_cons_of_mem _ ih

theorem mem_of_cuts {l since : List α} {a : α} (h : (a, since) ∈ cuts l) : a ∈ l := by
  induction l with
  | nil => cases h
  | cons b l ih =>
    rcases List.mem_cons.mp h with h | h
    · rw [(Prod.mk.inj h).1]
      exact List.mem_cons_self
    · exact List.mem_cons_of_mem _ (ih h)

end

end Reactive
