import Mathlib.Data.Nat.Basic

/-!
# Layouts of naturally aligned fields

The fields of a record follow each other, and each begins at the next multiple of its alignment.
-/

namespace WlanxVms

/-- The first multiple of `a` from `n` on -/
def roundUp (n a : Nat) : Nat := (n + a - 1) / a * a

structure FieldLayout where
  align : Nat
  size : Nat
  align_pos : 0 < align

/-- Where the fields end that begin at `off` or later -/
def endOf (off : Nat) (fields : List FieldLayout) : Nat :=
  fields.foldl (fun off f => roundUp off f.align + f.size) off

/-- Where a field begins that follows others -/
def startOf (off : Nat) (before : List FieldLayout) (f : FieldLayout) : Nat := roundUp (endOf off before) f.align

variable {m n a off off' : Nat} {f : FieldLayout} {fields : List FieldLayout}

theorem dvd_roundUp (n a : Nat) : a ∣ roundUp n a := Nat.dvd_mul_left ..

theorem le_roundUp (ha : 0 < a) (n : Nat) : n ≤ roundUp n a := by
  have hdiv := Nat.div_add_mod (n + a - 1) a
  have hmod := Nat.mod_lt (n + a - 1) ha
  have hcomm : (n + a - 1) / a * a = a * ((n + a - 1) / a) := Nat.mul_comm ..
  unfold roundUp
  omega

theorem roundUp_mono (a : Nat) (h : m ≤ n) : roundUp m a ≤ roundUp n a :=
  Nat.mul_le_mul_right a (Nat.div_le_div_right (by omega))

theorem endOf_mono (fields : List FieldLayout) (h : off ≤ off') : endOf off fields ≤ endOf off' fields := by
  induction fields generalizing off off' with
  | nil => exact h
  | cons f fields ih => exact ih (Nat.add_le_add_right (roundUp_mono f.align h) f.size)

theorem le_endOf (off : Nat) (fields : List FieldLayout) : off ≤ endOf off fields := by
  induction fields generalizing off with
  | nil => exact Nat.le_refl off
  | cons f fields ih =>
    have hstart := le_roundUp f.align_pos off
    have hrest := ih (roundUp off f.align + f.size)
    exact Nat.le_trans (Nat.le_add_right_of_le hstart) hrest

theorem le_startOf (off : Nat) (before : List FieldLayout) (f : FieldLayout) : off ≤ startOf off before f :=
  Nat.le_trans (le_endOf off before) (le_roundUp f.align_pos _)

theorem startOf_mono (before : List FieldLayout) (f : FieldLayout) (h : off ≤ off') :
    startOf off before f ≤ startOf off' before f :=
  roundUp_mono f.align (endOf_mono before h)

end WlanxVms
