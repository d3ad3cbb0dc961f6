import Mathlib

/-!
# Rows and tables

A row is a list of column values, read by place and type. A table is a list of
rows: inserting with replacement first drops the rows that clash with the new one,
and a query orders the rows by a key.
-/

namespace Sqlite

/-! ## Columns -/

inductive Value
  | null
  | integer (n : Int)
  | text (s : String)
deriving DecidableEq

abbrev Row := List Value

def Value.asInteger : Value → Option Int
  | .integer n => some n
  | _ => none

def Value.asText : Value → Option String
  | .text s => some s
  | _ => none

def Value.asBool (v : Value) : Option Bool := v.asInteger.map (· != 0)

/-- Integers come before texts, and null compares with nothing. -/
def Value.le : Value → Value → Bool
  | .integer a, .integer b => a ≤ b
  | .integer _, .text _ => true
  | .text a, .text b => a ≤ b
  | _, _ => false

def Value.same : Value → Value → Bool
  | .null, _ => false
  | v, w => v == w

def Value.lt (v w : Value) : Bool := v.le w && !w.le v

section
variable {α : Type}

def Value.optional (read : Value → Option α) : Value → Option (Option α)
  | .null => some none
  | v => (read v).map some

def Value.ofOption (write : α → Value) (a : Option α) : Value := a.elim .null write

def Row.get (row : Row) (column : Nat) (read : Value → Option α) : Option α := row[column]?.bind read

theorem optional_ofOption {β : Type} {read : Value → Option α} {write : β → Value} {b : β}
    (h : write b ≠ .null) :
    (Value.ofOption write (some b)).optional read = (read (write b)).map some := by
  unfold Value.ofOption Value.optional
  dsimp only [Option.elim]
  split
  · next hw => exact absurd hw h
  · rfl

end

/-! ## Replacing rows -/

section
variable {α β : Type} (clashes : α → α → Bool)

def insertOrReplace (table : List α) (row : α) : List α :=
  (table.filter fun old => !clashes old row) ++ [row]

def insertAll (table rows : List α) : List α := rows.foldl (insertOrReplace clashes) table

/-- The rows that no later one clashes with. -/
def survivors : List α → List α
  | [] => []
  | row :: later => if later.any (clashes row) then survivors later else row :: survivors later

variable {clashes} {rows : List α}

theorem insertAll_eq (table rows : List α) :
    insertAll clashes table rows = (table.filter fun old => !rows.any (clashes old)) ++
    survivors clashes rows := by
  induction rows generalizing table with
  | nil => simp [insertAll, survivors]
  | cons row rows ih =>
    have hstep : insertAll clashes table (row :: rows) =
      insertAll clashes (insertOrReplace clashes table row) rows := rfl
    rw [hstep, ih, survivors]
    unfold insertOrReplace
    rw [List.filter_append, List.filter_filter, List.append_assoc]
    congr 1
    · exact List.filter_congr fun old _ => by rw [List.any_cons, Bool.not_or, Bool.and_comm]
    · rw [List.filter_singleton]
      cases rows.any (clashes row) <;> rfl

theorem insertAll_nil (rows : List α) : insertAll clashes [] rows = survivors clashes rows :=
  (insertAll_eq [] rows).trans (List.nil_append _)

theorem insertAll_append (table rows later : List α) :
    insertAll clashes table (rows ++ later) = insertAll clashes (insertAll clashes table rows) later :=
  List.foldl_append ..

theorem survivors_sublist : (survivors clashes rows).Sublist rows := by
  induction rows with
  | nil => exact .slnil
  | cons row rows ih =>
    unfold survivors
    split
    · exact ih.cons row
    · exact ih.cons_cons row

/-- A row survives as the last of those before which none clashes with it. -/
theorem survivors_pairwise :
    (survivors clashes rows).Pairwise fun old row => clashes old row = false := by
  induction rows with
  | nil => exact .nil
  | cons row rows ih =>
    unfold survivors
    split
    · exact ih
    · next h =>
      refine .cons (fun later hl => ?_) ih
      exact Bool.eq_false_iff.mpr fun hc => h
        (List.any_eq_true.mpr ⟨later, survivors_sublist.subset hl, hc⟩)

theorem survivors_eq_self (h : rows.Pairwise fun old row => clashes old row = false) :
    survivors clashes rows = rows := by
  induction rows with
  | nil => rfl
  | cons row rows ih =>
    obtain ⟨hrow, hrows⟩ := List.pairwise_cons.mp h
    unfold survivors
    rw [if_neg fun hany => ?_, ih hrows]
    obtain ⟨later, hl, hc⟩ := List.any_eq_true.mp hany
    exact Bool.false_ne_true ((hrow later hl).symm.trans hc)

theorem mem_survivors {row : α} :
    row ∈ survivors clashes rows ↔ ∃ later, row :: later <:+ rows ∧ later.any (clashes row) = false := by
  induction rows with
  | nil => simp [survivors]
  | cons first rows ih =>
    unfold survivors
    split
    · next h =>
      rw [ih]
      refine exists_congr fun later => and_congr_left fun hl => ?_
      rw [List.suffix_cons_iff, or_iff_right]
      intro heq
      cases heq
      exact Bool.false_ne_true (hl.symm.trans h)
    · next h =>
      rw [List.mem_cons, ih]
      constructor
      · rintro (rfl | ⟨later, hl, hc⟩)
        · exact ⟨rows, List.suffix_rfl, Bool.eq_false_iff.mpr h⟩
        · exact ⟨later, hl.trans (List.suffix_cons _ _), hc⟩
      · rintro ⟨later, hl, hc⟩
        obtain heq | hl := List.suffix_cons_iff.mp hl
        · cases heq
          exact .inl rfl
        · exact .inr ⟨later, hl, hc⟩

theorem survivors_congr {clashes' : α → α → Bool}
    (h : ∀ row later, row :: later <:+ rows → later.any (clashes row) = later.any (clashes' row)) :
    survivors clashes rows = survivors clashes' rows := by
  induction rows with
  | nil => rfl
  | cons row rows ih =>
    unfold survivors
    rw [h row rows List.suffix_rfl,
      ih fun row' later hl => h row' later (hl.trans (List.suffix_cons _ _))]

theorem survivors_map {f : β → α} (rows : List β) :
    survivors clashes (rows.map f) = (survivors (fun old row => clashes (f old) (f row)) rows).map f := by
  induction rows with
  | nil => rfl
  | cons row rows ih =>
    rw [List.map_cons, survivors, survivors, List.any_map, ih, apply_ite (List.map f), List.map_cons]
    rfl

end

/-! ## Order -/

section
variable {α β : Type} (key : α → Int)

def orderBy (rows : List α) : List α := rows.mergeSort fun a b => key a ≤ key b

variable {key} {rows : List α}

theorem orderBy_perm : (orderBy key rows).Perm rows := List.mergeSort_perm _ _

theorem orderBy_pairwise : (orderBy key rows).Pairwise fun a b => key a ≤ key b := by
  refine (List.pairwise_mergeSort (fun a b c hab hbc => ?_) (fun a b => ?_) rows).imp fun h =>
    of_decide_eq_true h
  · exact decide_eq_true ((of_decide_eq_true hab).trans (of_decide_eq_true hbc))
  · rw [Bool.or_eq_true, decide_eq_true_iff, decide_eq_true_iff]
    exact le_total _ _

theorem orderBy_lt (h : (rows.map key).Nodup) : (orderBy key rows).Pairwise fun a b => key a < key b := by
  have hne : (orderBy key rows).Pairwise fun a b => key a ≠ key b :=
    List.pairwise_map.mp ((orderBy_perm.map key).nodup_iff.mpr h)
  exact (orderBy_pairwise.and hne).imp fun h => lt_of_le_of_ne h.1 h.2

/-- Rows in order of their keys are in the only such order. -/
theorem orderBy_unique {sorted : List α} (hp : sorted.Perm rows)
    (h : sorted.Pairwise fun a b => key a < key b) :
    orderBy key rows = sorted := by
  have hkeys : (rows.map key).Nodup :=
    (hp.map key).nodup_iff.mp (List.pairwise_map.mpr (h.imp ne_of_lt))
  refine (orderBy_perm.trans hp.symm).eq_of_pairwise (fun a b _ _ hab hba => ?_) (orderBy_lt hkeys) h
  exact absurd (hab.trans hba) (lt_irrefl _)

theorem orderBy_filter (h : (rows.map key).Nodup) (p : α → Bool) :
    orderBy key (rows.filter p) = (orderBy key rows).filter p :=
  orderBy_unique (orderBy_perm.filter p) ((orderBy_lt h).filter p)

theorem orderBy_neg (h : (rows.map key).Nodup) :
    orderBy key rows = (orderBy (fun a => -key a) rows).reverse := by
  refine orderBy_unique ((List.reverse_perm _).trans orderBy_perm) (List.pairwise_reverse.mpr ?_)
  have hneg : (rows.map fun a => -key a).Nodup := by
    rw [← Function.comp_def, ← List.map_map]
    exact h.map neg_injective
  exact (orderBy_lt hneg).imp Int.neg_lt_neg_iff.mp

theorem orderBy_map {f : β → α} (rows : List β) :
    orderBy key (rows.map f) = (orderBy (key ∘ f) rows).map f :=
  (List.map_mergeSort (f := f) fun _ _ _ _ => rfl).symm

end

end Sqlite
