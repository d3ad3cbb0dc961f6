import Mathlib

/-!
# Decimal numbers as bytes

Numbers are written without leading zeros, and read back from what is written.
Reading takes leading zeros and a plus sign too.
-/

namespace Decimal

def plus : UInt8 := 43

def minus : UInt8 := 45

def IsDigit (b : UInt8) : Prop := 48 ≤ b ∧ b ≤ 57

instance (b : UInt8) : Decidable (IsDigit b) := inferInstanceAs (Decidable (_ ∧ _))

/-! ## Reading -/

/-- The number that the digits go on to make, from the left. -/
def readFrom (n : Nat) : List UInt8 → Option Nat
  | [] => some n
  | b :: bs => if IsDigit b then readFrom (n * 10 + (b.toNat - 48)) bs else none

def natural (bs : List UInt8) : Option Nat := if bs = [] then none else readFrom 0 bs

def unsigned : List UInt8 → Option Nat
  | [] => none
  | b :: bs => if b = plus then natural bs else natural (b :: bs)

def signed : List UInt8 → Option Int
  | [] => none
  | b :: bs =>
    if b = minus then (natural bs).map fun n : Nat => -(n : Int)
    else (unsigned (b :: bs)).map fun n : Nat => (n : Int)

/-! ## Writing -/

def digit (d : Nat) : UInt8 := .ofNat (48 + d)

def writeNat (n : Nat) : List UInt8 := if n = 0 then [digit 0] else (Nat.digits 10 n).reverse.map digit

def writeInt (n : Int) : List UInt8 := if n < 0 then minus :: writeNat n.natAbs else writeNat n.natAbs

/-! ## Reading what is written -/

theorem digit_spec : ∀ d < 10, IsDigit (digit d) ∧ (digit d).toNat - 48 = d := by decide

theorem readFrom_digits (n : Nat) (ds : List Nat) (h : ∀ d ∈ ds, d < 10) :
    readFrom n (ds.map digit) = some (ds.foldl (fun n d => n * 10 + d) n) := by
  induction ds generalizing n with
  | nil => rfl
  | cons d ds ih =>
    obtain ⟨hd, hv⟩ := digit_spec d (h d List.mem_cons_self)
    simp only [List.map_cons, readFrom, if_pos hd, hv, List.foldl_cons]
    exact ih (n * 10 + d) fun e he => h e (List.mem_cons_of_mem d he)

theorem writeNat_eq (n : Nat) : ∃ ds :
    List Nat, writeNat n = ds.map digit ∧ ds ≠ [] ∧ (∀ d ∈ ds, d < 10) ∧
    ds.foldl (fun n d => n * 10 + d) 0 = n := by
  unfold writeNat
  split
  · next hn => exact ⟨[0], rfl, nofun, by decide, hn.symm⟩
  · next hn =>
    refine ⟨(Nat.digits 10 n).reverse, rfl, ?_, ?_, ?_⟩
    · exact List.reverse_ne_nil_iff.mpr (Nat.digits_ne_nil_iff_ne_zero.mpr hn)
    · exact fun d hd => Nat.digits_lt_base (by decide) (List.mem_reverse.mp hd)
    · rw [List.foldl_reverse]
      have hof := Nat.ofDigits_digits 10 n
      rw [Nat.ofDigits_eq_foldr] at hof
      conv_rhs => rw [← hof]
      congr 1
      funext d m
      simp only [Nat.cast_id]
      ring

theorem natural_writeNat (n : Nat) : natural (writeNat n) = some n := by
  obtain ⟨ds, hw, hne, hlt, hval⟩ := writeNat_eq n
  unfold natural
  rw [hw, if_neg (mt List.map_eq_nil_iff.mp hne), readFrom_digits 0 ds hlt, hval]

theorem writeNat_digits (n : Nat) : ∀ b ∈ writeNat n, IsDigit b := by
  obtain ⟨ds, hw, -, hlt, -⟩ := writeNat_eq n
  rw [hw]
  intro b hb
  obtain ⟨d, hd, rfl⟩ := List.mem_map.mp hb
  exact (digit_spec d (hlt d hd)).1

theorem writeNat_cons (n : Nat) : ∃ b bs, writeNat n = b :: bs ∧ IsDigit b := by
  obtain ⟨ds, hw, hne, -⟩ := writeNat_eq n
  cases hc : writeNat n with
  | nil => exact (hne (List.map_eq_nil_iff.mp (hw.symm.trans hc))).elim
  | cons b bs => exact ⟨b, bs, rfl, writeNat_digits n b (hc ▸ List.mem_cons_self)⟩

theorem unsigned_writeNat (n : Nat) : unsigned (writeNat n) = some n := by
  obtain ⟨b, bs, hw, hb⟩ := writeNat_cons n
  have hplus : b ≠ plus := by
    rintro rfl
    exact absurd hb (by decide)
  rw [hw, unsigned, if_neg hplus, ← hw, natural_writeNat]

theorem signed_writeInt (n : Int) : signed (writeInt n) = some n := by
  unfold writeInt
  split
  · next hn =>
    rw [signed, if_pos rfl, natural_writeNat, Option.map_some]
    congr 1
    omega
  · next hn =>
    obtain ⟨b, bs, hw, hb⟩ := writeNat_cons n.natAbs
    have hminus : b ≠ minus := by
      rintro rfl
      exact absurd hb (by decide)
    rw [hw, signed, if_neg hminus, ← hw, unsigned_writeNat, Option.map_some]
    congr 1
    omega

theorem writeInt_bytes (n : Int) : ∀ b ∈ writeInt n, IsDigit b ∨ b = minus := by
  unfold writeInt
  split
  · intro b hb
    obtain rfl | hb := List.mem_cons.mp hb
    · exact .inr rfl
    · exact .inl (writeNat_digits _ b hb)
  · exact fun b hb => .inl (writeNat_digits _ b hb)

end Decimal
