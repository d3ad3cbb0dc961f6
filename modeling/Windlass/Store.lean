import Windlass.Reactive
import Windlass.Cell

/-!
# A machine that stores through tasks

A client asks storage for work through its outputs. Each piece of work is a task:
it takes effect at some moment after it is asked for, or fails without an effect,
and its end is one input to the client. Only storage brings the ends of tasks and
what it reads.
-/

namespace Storage

open Reactive

/-- What is stored, and the tasks under way. -/
structure Store (σ α : Type) where
  stored : σ
  tasks : List (Task α)

section
variable {σ α : Type} (s : Store σ α)

def Store.issue (values : List α) : Store σ α :=
  { s with tasks := s.tasks ++ values.map fun value => { value := value, written := false } }

/-- The task at this place takes effect, unless it has already. -/
def Store.write (effect : α → σ → σ) (k : Nat) : Store σ α :=
  match s.tasks[k]? with
  | some { value, written := false } =>
    { stored := effect value s.stored, tasks := s.tasks.set k { value := value, written := true } }
  | _ => s

def Store.remove (k : Nat) : Store σ α := { s with tasks := s.tasks.eraseIdx k }

@[simp] theorem store_issue_nil : s.issue [] = s := by
  simp [Store.issue]

@[simp] theorem store_issue_stored (values : List α) : (s.issue values).stored = s.stored := rfl

theorem store_write_idle {s : Store σ α} (h : s.tasks = []) (effect : α → σ → σ) (k : Nat) :
    s.write effect k = s := by
  simp [Store.write, h]

theorem store_write_one {s : Store σ α} {task : Task α} (h : s.tasks = [task]) (effect : α → σ → σ)
    (k : Nat) :
    s.write effect k = s ∨ task.written = false ∧
      s.write effect k = { stored := effect task.value s.stored,
                           tasks := [{ task with written := true }] } := by
  obtain ⟨value, written⟩ := task
  unfold Store.write
  rw [h]
  match k, written with
  | 0, true => exact .inl rfl
  | 0, false => exact .inr ⟨rfl, rfl⟩
  | k + 1, _ => exact .inl rfl

theorem store_remove_one {s : Store σ α} {task task' : Task α} (h : s.tasks = [task]) {k : Nat}
    (hk : s.tasks[k]? = some task') : task' = task ∧ (s.remove k).tasks = [] := by
  rw [h] at hk
  match k with
  | 0 => exact ⟨(Option.some.inj hk).symm, by simp [Store.remove, h]⟩
  | k + 1 => cases hk

end

/-- A machine, the work its outputs ask for, and the inputs that storage brings. -/
structure Client (κ ι ο σ α τ : Type) where
  machine : Machine κ ι ο
  task? : ο → Option α
  effect : α → σ → σ
  answer : τ → α → Bool → ι
  read : τ → σ → ι
  reserved : ι → Bool

/-- What can happen: an input that storage does not bring, a task taking effect,
a task ending, or what is stored being read. -/
inductive Act (ι τ : Type)
  | input (i : ι)
  | write (k : Nat)
  | answer (k : Nat) (at' : τ)
  | read (at' : τ)

structure Served (κ σ α : Type) where
  core : κ
  store : Store σ α

section
variable {κ ι ο σ α τ : Type} (C : Client κ ι ο σ α τ)

/-- The input something brings to the client, and storage without the task it ends. -/
def Client.brings (j : Served κ σ α) : Act ι τ → Option (Store σ α × ι)
  | .input i => if C.reserved i then none else some (j.store, i)
  | .write _ => none
  | .answer k at' => j.store.tasks[k]?.map fun task =>
    (j.store.remove k, C.answer at' task.value task.written)
  | .read at' => some (j.store, C.read at' j.store.stored)

def Client.handle (core : κ) (store : Store σ α) (i : ι) : Served κ σ α × List ο :=
  ({ core := (C.machine.step core i).1,
     store := store.issue ((C.machine.step core i).2.filterMap C.task?) },
    (C.machine.step core i).2)

def Client.step (j : Served κ σ α) (act : Act ι τ) : Served κ σ α × List ο :=
  match C.brings j act with
  | some (store, i) => C.handle j.core store i
  | none =>
    match act with
    | .write k => ({ j with store := j.store.write C.effect k }, [])
    | _ => (j, [])

/-- The client over what is stored. -/
def Client.over' (stored : σ) : Machine (Served κ σ α) (Act ι τ) ο where
  init := { core := C.machine.init, store := { stored := stored, tasks := [] } }
  step := C.step

variable {C}

/-- What holds at first, and is kept by inputs, effects, ends of tasks and reads,
holds of every run. -/
theorem served_invariant {I : κ → Store σ α → Prop} {stored : σ}
    (h0 : I C.machine.init { stored := stored, tasks := [] })
    (hinput : ∀ core store i, I core store → C.reserved i = false →
      I (C.machine.step core i).1 (store.issue ((C.machine.step core i).2.filterMap C.task?)))
    (hwrite : ∀ core store k, I core store → I core (store.write C.effect k))
    (hanswer : ∀ core store k task at', I core store → store.tasks[k]? = some task →
      I (C.machine.step core (C.answer at' task.value task.written)).1
        ((store.remove k).issue ((C.machine.step core
          (C.answer at' task.value task.written)).2.filterMap C.task?)))
    (hread : ∀ core store at', I core store →
      I (C.machine.step core (C.read at' store.stored)).1
        (store.issue ((C.machine.step core (C.read at' store.stored)).2.filterMap C.task?)))
    (acts : List (Act ι τ)) : I ((C.over' stored).last acts).core ((C.over' stored).last acts).store := by
  refine last_invariant (C.over' stored) (I := fun j => I j.core j.store) h0 (fun j act hj => ?_) acts
  change I (C.step j act).1.core (C.step j act).1.store
  unfold Client.step
  cases act with
  | input i =>
    cases hr : C.reserved i with
    | true =>
      have hb : C.brings j (.input i) = none := if_pos hr
      rw [hb]
      exact hj
    | false =>
      have hb : C.brings j (.input i) = some (j.store, i) := if_neg (by simp [hr])
      rw [hb]
      exact hinput j.core j.store i hj hr
  | write k => exact hwrite j.core j.store k hj
  | answer k at' =>
    cases ht : j.store.tasks[k]? with
    | none =>
      have hb : C.brings j (.answer k at') = none := by simp [Client.brings, ht]
      rw [hb]
      exact hj
    | some task =>
      have hb : C.brings j (.answer k at') =
          some (j.store.remove k, C.answer at' task.value task.written) := by
        simp [Client.brings, ht]
      rw [hb]
      exact hanswer j.core j.store k task at' hj ht
  | read at' => exact hread j.core j.store at' hj

end

end Storage
