import Mathlib

/-!
# A map kept in step by deltas

Records have fields, and a delta gives some of them. A mirror of a keyed map of
records merges deltas entry by entry and drops the keys that are gone; it comes
to the new map when the deltas carry at least what changed.
-/

namespace Mirror

/-- Records `ν` and their deltas `δ`, field by field. A record is its fields. -/
structure Fields (φ : Type) (β : φ → Type) (ν δ : Type) where
  get : ν → ∀ f, β f
  given : δ → ∀ f, Option (β f)
  blank : ν
  patch : ν → δ → ν
  get_patch : ∀ v d f, get (patch v d) f = (given d f).getD (get v f)
  ext : ∀ v w, (∀ f, get v f = get w f) → v = w

section
variable {φ ν δ : Type} {β : φ → Type} (F : Fields φ β ν δ)

/-! ## One record -/

/-- What the delta gives is the record's. -/
def Fields.Fits (d : δ) (v : ν) : Prop := ∀ f x, F.given d f = some x → x = F.get v f

def Fields.patchAll (v : ν) (deltas : List δ) : ν := deltas.foldl F.patch v

theorem get_patchAll (f : φ) {v w : ν} {deltas : List δ} (hfits : ∀ d ∈ deltas, F.Fits d w)
    (hcovered : F.get v f = F.get w f ∨ ∃ d ∈ deltas, (F.given d f).isSome) :
    F.get (F.patchAll v deltas) f = F.get w f := by
  induction deltas generalizing v with
  | nil =>
    obtain h | ⟨d, hd, -⟩ := hcovered
    · exact h
    · cases hd
  | cons d deltas ih =>
    refine ih (fun e he => hfits e (List.mem_cons_of_mem d he)) ?_
    rw [F.get_patch]
    cases hg : F.given d f with
    | some x => exact .inl (hfits d List.mem_cons_self f x hg)
    | none =>
      obtain h | ⟨e, he, hs⟩ := hcovered
      · exact .inl h
      · obtain rfl | he := List.mem_cons.mp he
        · rw [hg] at hs
          cases hs
        · exact .inr ⟨e, he, hs⟩

/-! ## A map of records -/

variable {κ : Type} {cmp : κ → κ → Ordering}

def Fields.merge (m : Std.ExtTreeMap κ ν cmp) [Std.TransCmp cmp] (entries : List (κ × δ)) :
    Std.ExtTreeMap κ ν cmp :=
  entries.foldl (fun m (k, d) => m.insert k (F.patch (m[k]?.getD F.blank) d)) m

def drop [Std.TransCmp cmp] (m : Std.ExtTreeMap κ ν cmp) (gone : List κ) : Std.ExtTreeMap κ ν cmp :=
  gone.foldl (fun m k => m.erase k) m

variable [Std.TransCmp cmp] [Std.LawfulEqCmp cmp]

theorem drop_getElem? [DecidableEq κ] (m : Std.ExtTreeMap κ ν cmp) (gone : List κ) (k : κ) :
    (drop m gone)[k]? = if k ∈ gone then none else m[k]? := by
  induction gone generalizing m with
  | nil => rfl
  | cons k' gone ih =>
    refine (ih (m.erase k')).trans ?_
    rw [Std.ExtTreeMap.getElem?_erase]
    by_cases hk : k' = k
    · simp [hk]
    · simp [hk, Ne.symm hk]

/-- The deltas of one key, in order. -/
def deltas [DecidableEq κ] (k : κ) (entries : List (κ × δ)) : List δ :=
  entries.filterMap fun e => if e.1 = k then some e.2 else none

theorem mem_deltas [DecidableEq κ] {k : κ} {entries : List (κ × δ)} {d : δ} :
    d ∈ deltas k entries ↔ (k, d) ∈ entries := by
  unfold deltas
  rw [List.mem_filterMap]
  constructor
  · rintro ⟨⟨k', d'⟩, he, h⟩
    dsimp only at h
    split at h
    · next hk =>
      cases h
      rwa [← hk]
    · cases h
  · intro h
    exact ⟨(k, d), h, if_pos rfl⟩

theorem merge_getElem? [DecidableEq κ] (m : Std.ExtTreeMap κ ν cmp) (entries : List (κ × δ)) (k : κ) :
    (F.merge m entries)[k]? =
      if deltas k entries = [] then m[k]?
      else some (F.patchAll (m[k]?.getD F.blank) (deltas k entries)) := by
  -- later entries of an answer are applied over the earlier ones
  induction entries generalizing m with
  | nil => rfl
  | cons e entries ih =>
    refine (ih (m.insert e.1 (F.patch (m[e.1]?.getD F.blank) e.2))).trans ?_
    rw [Std.ExtTreeMap.getElem?_insert]
    by_cases hk : e.1 = k
    · have hcons : deltas k (e :: entries) = e.2 :: deltas k entries :=
        List.filterMap_cons_some (if_pos hk)
      rw [hcons, if_neg (List.cons_ne_nil _ _), ← hk]
      simp only [Std.LawfulEqCmp.compare_eq_iff_eq, if_true, Option.getD_some]
      split
      · next hnil => rw [hnil]; rfl
      · rfl
    · have hskip : deltas k (e :: entries) = deltas k entries := List.filterMap_cons_none (if_neg hk)
      rw [hskip, if_neg (mt Std.LawfulEqCmp.eq_of_compare hk)]

/-- The entries and the keys gone carry at least what changed from one map to the
next: an entry is of a record in the new map, unless its key is gone, and gives
fields as they are there; every field of a new record is given, or as it was; no
new record is without an entry; and of the new map's keys none is gone, of the
old one's all that it lacks. -/
structure Carries (old new : Std.ExtTreeMap κ ν cmp) (entries : List (κ × δ)) (gone : List κ) : Prop where
  present : ∀ k d, (k, d) ∈ entries → k ∉ gone → ∃ v, new[k]? = some v ∧ F.Fits d v
  covered : ∀ k v, new[k]? = some v → ∀ f,
    F.get (old[k]?.getD F.blank) f = F.get v f ∨ ∃ d, (k, d) ∈ entries ∧ (F.given d f).isSome
  added : ∀ k v, new[k]? = some v → old[k]? = none → ∃ d, (k, d) ∈ entries
  kept : ∀ k ∈ gone, new[k]? = none
  left : ∀ k v, old[k]? = some v → new[k]? = none → k ∈ gone

theorem merge_carried {old new : Std.ExtTreeMap κ ν cmp} {entries : List (κ × δ)} {gone : List κ}
    (h : Carries F old new entries gone) : drop (F.merge old entries) gone = new := by
  classical
  refine Std.ExtTreeMap.ext_getElem? fun k => ?_
  rw [drop_getElem?]
  split
  · next hk => rw [h.kept k hk]
  · next hk =>
    rw [merge_getElem?]
    cases hnew : new[k]? with
    | none =>
      have hnil : deltas k entries = [] := by
        rw [List.eq_nil_iff_forall_not_mem]
        intro d hd
        obtain ⟨v, hv, -⟩ := h.present k d (mem_deltas.mp hd) hk
        rw [hnew] at hv
        cases hv
      rw [if_pos hnil]
      by_contra hold
      obtain ⟨v, hv⟩ := Option.ne_none_iff_exists'.mp hold
      exact hk (h.left k v hv hnew)
    | some w =>
      have hfits : ∀ d ∈ deltas k entries, F.Fits d w := by
        intro d hd
        obtain ⟨v, hv, hf⟩ := h.present k d (mem_deltas.mp hd) hk
        rw [hnew] at hv
        cases hv
        exact hf
      have hall : F.patchAll (old[k]?.getD F.blank) (deltas k entries) = w := by
        refine F.ext _ _ fun f => get_patchAll F f hfits ?_
        obtain hsame | ⟨d, hd, hs⟩ := h.covered k w hnew f
        · exact .inl hsame
        · exact .inr ⟨d, mem_deltas.mpr hd, hs⟩
      split
      · next hnil =>
        cases hold : old[k]? with
        | none =>
          obtain ⟨d, hd⟩ := h.added k w hnew hold
          rw [← mem_deltas, hnil] at hd
          cases hd
        | some v =>
          rw [hnil, hold] at hall
          exact congrArg some hall
      · rw [hall]

/-! ## Least deltas -/

section
variable (whole : ν → δ) (old new : Std.ExtTreeMap κ ν cmp)

/-- The records that differ from the old ones, whole. -/
def changed [DecidableEq ν] : List (κ × δ) :=
  (new.toList.filter fun e => old[e.1]? ≠ some e.2).map fun e => (e.1, whole e.2)

def gone : List κ := old.keys.filter fun k => new[k]? = none

theorem mem_changed [DecidableEq ν] {k : κ} {d : δ} :
    (k, d) ∈ changed whole old new ↔ ∃ v, new[k]? = some v ∧ old[k]? ≠ some v ∧ whole v = d := by
  unfold changed
  rw [List.mem_map]
  constructor
  · rintro ⟨⟨k', v⟩, he, h⟩
    cases h
    obtain ⟨hmem, hne⟩ := List.mem_filter.mp he
    exact ⟨v, Std.ExtTreeMap.mem_toList_iff_getElem?_eq_some.mp hmem, of_decide_eq_true hne, rfl⟩
  · rintro ⟨v, hv, hne, rfl⟩
    exact ⟨(k, v), List.mem_filter.mpr ⟨Std.ExtTreeMap.mem_toList_iff_getElem?_eq_some.mpr hv,
      decide_eq_true hne⟩, rfl⟩

theorem mem_gone {k : κ} : k ∈ gone old new ↔ (∃ v, old[k]? = some v) ∧ new[k]? = none := by
  unfold gone
  rw [List.mem_filter, Std.ExtTreeMap.mem_keys, ← Std.ExtTreeMap.isSome_getElem?_iff_mem,
    Option.isSome_iff_exists,
    decide_eq_true_iff]

theorem changed_carries [DecidableEq ν] (hwhole : ∀ v f, F.given (whole v) f = some (F.get v f)) :
    Carries F old new (changed whole old new) (gone old new) where
  present k d hd _ := by
    obtain ⟨v, hv, -, rfl⟩ := (mem_changed whole old new).mp hd
    refine ⟨v, hv, fun f x hx => ?_⟩
    rw [hwhole] at hx
    exact (Option.some.inj hx).symm
  covered k v hv f := by
    by_cases hold : old[k]? = some v
    · rw [hold]
      exact .inl rfl
    · refine .inr ⟨whole v, (mem_changed whole old new).mpr ⟨v, hv, hold, rfl⟩, ?_⟩
      rw [hwhole]
      rfl
  added k v hv hold := ⟨whole v, (mem_changed whole old new).mpr ⟨v, hv, by rw [hold]; nofun, rfl⟩⟩
  kept k hk := ((mem_gone old new).mp hk).2
  left k v hv hnew := (mem_gone old new).mpr ⟨⟨v, hv⟩, hnew⟩

end

end

end Mirror
