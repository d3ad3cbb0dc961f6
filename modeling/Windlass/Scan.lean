import Mathlib

/-!
# Scanners and separators

A scanner reads a value from the front of an input, and what it leaves is a
shorter end of it. That makes reading items up to a stop symbol end. A list is split
at the first or at the last place where a separator stands.
-/

namespace Scan

variable {τ α β : Type}

/-- What is left of an input: less of it, at its end. -/
abbrev Rest (input : List τ) := { rest : List τ // rest <:+ input ∧ rest.length < input.length }

def Rest.trans {input : List τ} (rest : Rest input) (later : Rest rest.1) : Rest input :=
  ⟨later.1, later.2.1.trans rest.2.1, later.2.2.trans rest.2.2⟩

def Rest.tail (t : τ) (input : List τ) : Rest (t :: input) :=
  ⟨input, List.suffix_cons t input, Nat.lt_succ_self _⟩

def Rest.drop {input : List τ} (n : Nat) (h0 : 0 < n) (h : n ≤ input.length) : Rest input :=
  ⟨input.drop n, List.drop_suffix n input, by rw [List.length_drop]; omega⟩

abbrev Scanner (τ α : Type) := (input : List τ) → Option (α × Rest input)

/-- What is read and what is left, as plain lists. -/
def Scanner.run (s : Scanner τ α) (input : List τ) : Option (α × List τ) :=
  (s input).map fun p => (p.1, p.2.1)

theorem run_rest {s : Scanner τ α} {input rest : List τ} {a : α} (h : s.run input = some (a, rest)) :
    rest <:+ input ∧ rest.length < input.length := by
  obtain ⟨⟨a', rest'⟩, -, h⟩ := Option.map_eq_some_iff.mp h
  cases h
  exact rest'.2

/-- Read items until the stop symbol, and over it. -/
def many [DecidableEq τ] (stop : τ) (item : Scanner τ α) (input : List τ) :
    Option (List α × Rest input) :=
  match input with
  | [] => none
  | t :: tail =>
    if t = stop then some ([], Rest.tail t tail)
    else
      match item (t :: tail) with
      | none => none
      | some (a, rest) =>
        match many stop item rest.1 with
        | none => none
        | some (as, later) => some (a :: as, rest.trans later)
termination_by input.length
decreasing_by exact rest.2.2

section
variable [DecidableEq τ] {stop : τ} {item : Scanner τ α}

theorem many_stop (r : List τ) : Scanner.run (many stop item) (stop :: r) = some ([], r) := by
  unfold Scanner.run
  rw [many, if_pos rfl]
  rfl

theorem many_item {t : τ} {tail rest : List τ} {a : α} (ht : t ≠ stop)
    (h : item.run (t :: tail) = some (a, rest)) :
    Scanner.run (many stop item) (t :: tail) = (Scanner.run (many stop item) rest).map fun p =>
    (a :: p.1, p.2) := by
  obtain ⟨⟨a', rest'⟩, hitem, h⟩ := Option.map_eq_some_iff.mp h
  cases h
  unfold Scanner.run
  rw [many, if_neg ht, hitem]
  dsimp only
  cases many stop item rest'.1 with
  | none => rfl
  | some p => rfl

theorem many_cases {input r : List τ} {as : List α}
    (h : Scanner.run (many stop item) input = some (as, r)) :
    (as = [] ∧ input = stop :: r) ∨
      ∃ a later as', item.run input = some (a, later) ∧
      Scanner.run (many stop item) later = some (as', r) ∧
        as = a :: as' := by
  obtain ⟨⟨as', rest⟩, hmany, h⟩ := Option.map_eq_some_iff.mp h
  cases h
  rw [many.eq_def] at hmany
  split at hmany
  · cases hmany
  · next t tail =>
    split at hmany
    · next ht =>
      cases hmany
      exact .inl ⟨rfl, by rw [ht]; rfl⟩
    · split at hmany
      · cases hmany
      · next a later hitem =>
        split at hmany
        · cases hmany
        · next hlater =>
          cases hmany
          refine .inr ⟨a, later.1, _, ?_, ?_, rfl⟩
          · rw [Scanner.run, hitem]
            rfl
          · rw [Scanner.run, hlater]
            rfl

theorem mem_many {input r : List τ} {as : List α}
    (h : Scanner.run (many stop item) input = some (as, r)) {a : α}
    (ha : a ∈ as) : ∃ front later, front <:+ input ∧ item.run front = some (a, later) := by
  induction as generalizing input with
  | nil => cases ha
  | cons b as ih =>
    obtain ⟨hnil, -⟩ | ⟨b', later, as', hitem, hrest, hcons⟩ := many_cases h
    · cases hnil
    · cases hcons
      obtain rfl | ha := List.mem_cons.mp ha
      · exact ⟨input, later, List.suffix_refl input, hitem⟩
      · obtain ⟨front, later', hfront, hread⟩ := ih hrest ha
        exact ⟨front, later', hfront.trans (run_rest hitem).1, hread⟩

/-- Items written one after the other, each read back from the front of whatever
follows it, are all read back. -/
theorem many_written {write : β → List τ} {value : β → α} {items : List β} {r : List τ} {size : Nat}
    (hread : ∀ b ∈ items, ∀ r, (write b ++ r).length ≤ size → item.run (write b ++ r) = some (value b, r))
    (hhead : ∀ b ∈ items, ∃ t tail, write b = t :: tail ∧ t ≠ stop)
    (hsize : (items.flatMap write ++ stop :: r).length ≤ size) :
    Scanner.run (many stop item) (items.flatMap write ++ stop :: r) = some (items.map value, r) := by
  induction items with
  | nil => exact many_stop r
  | cons b items ih =>
    obtain ⟨t, tail, hw, ht⟩ := hhead b List.mem_cons_self
    have hsplit : (b :: items).flatMap write ++ stop :: r = write b ++
        (items.flatMap write ++ stop :: r) := by
      rw [List.flatMap_cons, List.append_assoc]
    rw [hsplit] at hsize ⊢
    have hitem := hread b List.mem_cons_self _ hsize
    rw [hw, List.cons_append] at hitem ⊢
    have hrest : (items.flatMap write ++ stop :: r).length ≤ size := by
      rw [List.length_append] at hsize
      exact (Nat.le_add_left _ _).trans hsize
    rw [many_item ht hitem, ih (fun c hc => hread c (List.mem_cons_of_mem b hc))
      (fun c hc => hhead c (List.mem_cons_of_mem b hc)) hrest]
    rfl

end

end Scan

/-! ## Splitting at a separator -/

namespace Split

variable {α : Type} [DecidableEq α]

def splitOnce (sep : α) : List α → Option (List α × List α)
  | [] => none
  | c :: s => if c = sep then some ([], s) else (splitOnce sep s).map fun p => (c :: p.1, p.2)

def rsplitOnce (sep : α) (s : List α) : Option (List α × List α) :=
  (splitOnce sep s.reverse).map fun p => (p.2.reverse, p.1.reverse)

variable {sep : α} {s front rest front' rest' : List α}

theorem splitOnce_append (h : sep ∉ front) :
    splitOnce sep (front ++ sep :: rest) = some (front, rest) := by
  induction front with
  | nil => simp [splitOnce]
  | cons c front ih =>
    obtain ⟨hc, hfront⟩ := not_or.mp (mt List.mem_cons.mpr h)
    rw [List.cons_append, splitOnce, if_neg (Ne.symm hc), ih hfront]
    rfl

theorem splitOnce_eq_some :
    splitOnce sep s = some (front, rest) ↔ s = front ++ sep :: rest ∧ sep ∉ front := by
  constructor
  · intro h
    induction s generalizing front with
    | nil => cases h
    | cons c s ih =>
      rw [splitOnce] at h
      by_cases hc : c = sep
      · rw [if_pos hc] at h
        cases h
        simp [hc]
      · rw [if_neg hc] at h
        obtain ⟨⟨front', rest'⟩, hs, hp⟩ := Option.map_eq_some_iff.mp h
        cases hp
        obtain ⟨rfl, hfront⟩ := ih hs
        simp [Ne.symm hc, hfront]
  · rintro ⟨rfl, hfront⟩
    exact splitOnce_append hfront

theorem splitOnce_eq_none : splitOnce sep s = none ↔ sep ∉ s := by
  induction s with
  | nil => simp [splitOnce]
  | cons c s ih =>
    rw [splitOnce]
    by_cases hc : c = sep
    · simp [hc]
    · rw [if_neg hc, Option.map_eq_none_iff, ih, List.mem_cons, not_or]
      simp [Ne.symm hc]

theorem rsplitOnce_eq_some :
    rsplitOnce sep s = some (front, rest) ↔ s = front ++ sep :: rest ∧ sep ∉ rest := by
  have hback : s.reverse = rest.reverse ++ sep :: front.reverse ↔ s = front ++ sep :: rest := by
    rw [← List.reverse_inj]
    simp
  rw [← hback, ← List.mem_reverse, ← splitOnce_eq_some]
  unfold rsplitOnce
  constructor
  · intro h
    obtain ⟨p, hp, heq⟩ := Option.map_eq_some_iff.mp h
    cases heq
    simpa using hp
  · intro h
    simp [h]

/-- Two splits whose fronts are free of the separator are one. -/
theorem split_unique (h : front ++ sep :: rest = front' ++ sep :: rest') (hf : sep ∉ front)
    (hf' : sep ∉ front') :
    front = front' ∧ rest = rest' := by
  have hsplit : some (front, rest) = some (front', rest') := by
    rw [← splitOnce_append hf, ← splitOnce_append hf', h]
  exact Prod.mk.inj (Option.some.inj hsplit)

end Split
