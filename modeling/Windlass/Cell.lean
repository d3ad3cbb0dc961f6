import Mathlib

/-!
# A stored value and the tasks that write it

Every write is a task of its own: it writes its value at some moment after it is
issued, and ends some time after that. Tasks that overlap write in any order, so
what is stored in the end is the value of the task that wrote last.
-/

namespace Storage

structure Task (α : Type) where
  value : α
  written : Bool
deriving DecidableEq

structure Cell (α : Type) where
  stored : α
  tasks : List (Task α)
deriving DecidableEq

section
variable {α : Type} (c : Cell α)

def Cell.issue (values : List α) : Cell α :=
  { c with tasks := c.tasks ++ values.map fun value => { value := value, written := false } }

/-- The task at this place writes its value, unless it has already. -/
def Cell.write (k : Nat) : Cell α :=
  match c.tasks[k]? with
  | some { value, written := false } =>
    { stored := value, tasks := c.tasks.set k { value := value, written := true } }
  | _ => c

/-- The task at this place has ended, with its value written or not. -/
def Cell.isAt (k : Nat) (written : Bool) : Bool := c.tasks[k]?.any fun task => task.written == written

def Cell.remove (k : Nat) : Cell α := { c with tasks := c.tasks.eraseIdx k }

/-- Every task that is still to write has this value. -/
def Cell.Awaits (value : α) : Prop := ∀ task ∈ c.tasks, task.written = false → task.value = value

/-- Once every task has written, this value is stored. -/
def Cell.Tends (value : α) : Prop := c.stored = value ∨ ∃ task ∈ c.tasks, task.written = false

section
variable {c} {value : α}

theorem awaits_nil (h : c.tasks = []) : c.Awaits value := by
  intro task ht
  rw [h] at ht
  cases ht

theorem Cell.Tends.stored (h : c.Tends value) (hn : c.tasks = []) : c.stored = value := by
  obtain h | ⟨task, ht, -⟩ := h
  · exact h
  · rw [hn] at ht
    cases ht

theorem write_idle (h : c.tasks = []) (k : Nat) : c.write k = c := by
  simp [Cell.write, h]

theorem remove_idle (h : c.tasks = []) (k : Nat) : (c.remove k).tasks = [] := by
  simp [Cell.remove, h]

theorem issue_nil : c.issue [] = c := by
  simp [Cell.issue]

theorem Cell.Awaits.issue (h : c.Awaits value) : (c.issue [value]).Awaits value := by
  intro task ht hw
  simp only [Cell.issue, List.map_cons, List.map_nil, List.mem_append, List.mem_singleton] at ht
  obtain ht | rfl := ht
  · exact h task ht hw
  · rfl

theorem issue_tends : (c.issue [value]).Tends value :=
  .inr ⟨{ value := value, written := false }, by simp [Cell.issue], rfl⟩

theorem Cell.Awaits.write (h : c.Awaits value) (k : Nat) : (c.write k).Awaits value := by
  unfold Cell.write
  split
  · intro task ht hw
    obtain ht | rfl := List.mem_or_eq_of_mem_set ht
    · exact h task ht hw
    · cases hw
  · exact h

theorem Cell.Tends.write (h : c.Tends value) (ha : c.Awaits value) (k : Nat) :
    (c.write k).Tends value := by
  unfold Cell.write
  split
  · next v hk => exact .inl (ha _ (List.mem_of_getElem? hk) rfl)
  · exact h

theorem Cell.Awaits.remove (h : c.Awaits value) (k : Nat) : (c.remove k).Awaits value := fun task ht =>
  h task (List.mem_of_mem_eraseIdx ht)

theorem Cell.Tends.remove (h : c.Tends value) {k : Nat} (hk : c.isAt k true) :
    (c.remove k).Tends value := by
  obtain h | ⟨task, ht, hw⟩ := h
  · exact .inl h
  · refine .inr ⟨task, ?_, hw⟩
    obtain ⟨j, hj⟩ := List.getElem?_of_mem ht
    refine List.mem_eraseIdx_iff_getElem?.mpr ⟨j, ?_, hj⟩
    rintro rfl
    simp [Cell.isAt, hj, hw] at hk

end

end

end Storage
