import Mathlib.Algebra.Order.Ring.Int

/-!
# Numbers given by a sign and a magnitude

`signed positive m` is the number with the magnitude `m`. Zero has two representations, so a
comparison of signs says nothing about it.
-/

namespace WlanxVms

def signed (positive : Bool) (m : Nat) : Int := if positive then m else -m

/-- Both positive or both negative -/
def SameSign (x y : Int) : Prop := 0 < x ∧ 0 < y ∨ x < 0 ∧ y < 0

instance (x y : Int) : Decidable (SameSign x y) := by unfold SameSign; infer_instance

variable {p q : Bool} {m n k : Nat}

@[simp] theorem signed_true : signed true m = m := rfl

@[simp] theorem signed_false : signed false m = -m := rfl

@[simp] theorem natAbs_signed : (signed p m).natAbs = m := by
  cases p <;> simp

@[simp] theorem signed_eq_zero_iff : signed p m = 0 ↔ m = 0 := by
  cases p <;> simp

@[simp] theorem sameSign_signed : SameSign (signed p m) (signed p n) ↔ 0 < m ∧ 0 < n := by
  unfold SameSign
  cases p <;> simp

theorem not_sameSign_signed_not : ¬SameSign (signed p m) (signed (!p) n) := by
  unfold SameSign
  cases p <;> simp

theorem signed_add (p : Bool) (m n : Nat) : signed p (m + n) = signed p m + signed p n := by
  cases p with
  | true => simp
  | false => simp; omega

theorem signed_sub_not (p : Bool) (m n : Nat) : signed p m - signed (!p) n = signed p (m + n) := by
  cases p with
  | true => simp
  | false => simp; omega

theorem sameSign_signed_sub : SameSign (signed p m) (signed p m + signed (!p) n) ↔ n < m := by
  unfold SameSign
  cases p <;> simp <;> omega

theorem natAbs_signed_sub : (signed p m + signed (!p) n).natAbs = m - n + (n - m) := by
  cases p <;> simp <;> omega

/-- Comparing signs first and then magnitudes, which fails only between the two zeros -/
theorem signed_lt_iff (h : m = 0 → n = 0 → p = q) :
    signed p m < signed q n ↔
      (if p ∧ q then decide (m < n) else if p ∧ !q then false else if !p ∧ q then true else decide (n < m)) = true := by
  cases p <;> cases q <;> simp at h ⊢
  omega

theorem lt_signed_iff (h : m = 0 → n = 0 → p = q) :
    signed q n < signed p m ↔
      (if p ∧ q then decide (n < m) else if p ∧ !q then true else if !p ∧ q then false else decide (m < n)) = true := by
  cases p <;> cases q <;> simp at h ⊢
  omega

theorem signed_tdiv (p : Bool) (m k : Nat) : signed p (m / k) = (signed p m).tdiv k := by
  cases p with
  | true => exact Int.ofNat_tdiv m k
  | false =>
    rw [signed_false, signed_false, Int.neg_tdiv, ← Int.ofNat_tdiv]

theorem eq_decide_of_signed_ne_zero (h : signed p m ≠ 0) : p = decide (0 ≤ signed p m) := by
  cases p with
  | true => simp
  | false =>
    have hm : m ≠ 0 := fun hm => h (by rw [hm]; rfl)
    rw [signed_false, eq_comm, decide_eq_false_iff_not]
    omega

end WlanxVms
