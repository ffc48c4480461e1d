import Mathlib.Algebra.Order.Group.Unbundled.Int
import Mathlib.Tactic.Ring
import WlanxVms.Lib.SignMag

/-!
# Signed times (`bignum_sec_profiling.c`)

A `BignumSec` is a sign with seconds and nanoseconds. The functions write their result through a
pointer `c`; here they return it, from what `c` held before. `none` is an assertion that fails or a
division by zero. The unsigned addition carries only above `one_billion`, so a result can hold
`nsec = one_billion`, which the other functions do not expect (`Full`).
-/

namespace WlanxVms
namespace Injector

/-- `bignum_sec_t` -/
structure BignumSec where
  sec : UInt64
  nsec : UInt64
  positive : Bool
deriving DecidableEq

/-! ### Unsigned arithmetic -/

def bignumSecAddUnsigned (a b c : BignumSec) : BignumSec :=
  let c := { c with nsec := a.nsec + b.nsec }
  if c.nsec > 1000000000 then { c with nsec := c.nsec - 1000000000, sec := a.sec + b.sec + 1 }
  else { c with sec := a.sec + b.sec }

def bignumSecSubUnsigned (a b c : BignumSec) : Option BignumSec :=
  if a.sec > b.sec ∨ a.sec = b.sec ∧ a.nsec > b.nsec then
    if a.nsec < b.nsec then
      some { c with nsec := a.nsec + 1000000000 - b.nsec, sec := a.sec - 1 - b.sec }
    else some { c with nsec := a.nsec - b.nsec, sec := a.sec - b.sec }
  else none

def bignumSecDivsUnsigned (a : BignumSec) (b : UInt32) (c : BignumSec) : Option BignumSec :=
  if b = 0 then none
  else
    let remainder := a.sec % b.toUInt64
    let nsec := (remainder * 1000000000 + a.nsec) / b.toUInt64
    let carry := nsec / 1000000000
    some { c with sec := a.sec / b.toUInt64 + carry, nsec := nsec - carry * 1000000000 }

def bignumSecGreaterThanUnsigned (a b : BignumSec) : Bool :=
  if a.sec > b.sec then true
  else if a.sec < b.sec then false
  else a.nsec > b.nsec

def bignumSecLessThanUnsigned (a b : BignumSec) : Bool :=
  if a.sec < b.sec then true
  else if a.sec > b.sec then false
  else a.nsec < b.nsec

/-! ### Signed arithmetic -/

def bignumSecEqual (a b : BignumSec) : Bool :=
  if a.positive ≠ b.positive then false
  else if a.sec ≠ b.sec then false
  else if a.nsec ≠ b.nsec then false
  else true

def bignumSecAdd (a b c : BignumSec) : Option BignumSec :=
  if a.positive = b.positive then some (bignumSecAddUnsigned a b { c with positive := a.positive })
  else if a.positive ∧ !b.positive then
    if bignumSecGreaterThanUnsigned a b then bignumSecSubUnsigned a b { c with positive := true }
    else bignumSecSubUnsigned b a { c with positive := false }
  else
    if bignumSecGreaterThanUnsigned b a then bignumSecSubUnsigned b a { c with positive := true }
    else bignumSecSubUnsigned a b { c with positive := false }

/-- Equal numbers do not end the function: what it stored is overwritten below. -/
def bignumSecSub (a b c : BignumSec) : Option BignumSec :=
  let c := if bignumSecEqual a b then { sec := 0, nsec := 0, positive := true } else c
  if a.positive ∧ b.positive then
    if bignumSecGreaterThanUnsigned a b then bignumSecSubUnsigned a b { c with positive := true }
    else bignumSecSubUnsigned b a { c with positive := false }
  else if a.positive ∧ !b.positive then some (bignumSecAddUnsigned a b { c with positive := true })
  else if !a.positive ∧ b.positive then some (bignumSecAddUnsigned a b { c with positive := false })
  else
    if bignumSecGreaterThanUnsigned b a then bignumSecSubUnsigned b a { c with positive := true }
    else bignumSecSubUnsigned a b { c with positive := false }

def bignumSecDivs (a : BignumSec) (b : UInt32) (c : BignumSec) : Option BignumSec :=
  bignumSecDivsUnsigned a b { c with positive := a.positive }

def bignumSecGreaterThan (a b : BignumSec) : Bool :=
  if bignumSecEqual a b then false
  else if a.positive ∧ b.positive then bignumSecGreaterThanUnsigned a b
  else if a.positive ∧ !b.positive then true
  else if !a.positive ∧ b.positive then false
  else bignumSecLessThanUnsigned a b

def bignumSecLessThan (a b : BignumSec) : Bool :=
  if bignumSecEqual a b then false
  else if a.positive ∧ b.positive then bignumSecLessThanUnsigned a b
  else if a.positive ∧ !b.positive then false
  else if !a.positive ∧ b.positive then true
  else bignumSecGreaterThanUnsigned a b

def bignumSecAssigns (positive : Bool) (sec nsec : UInt64) : BignumSec := { positive, sec, nsec }

def bignumSecIsZero (a : BignumSec) : Bool := a.sec = 0 ∧ a.nsec = 0

namespace BignumSec

/-! ### What the numbers stand for -/

/-- The magnitude in nanoseconds -/
def mag (a : BignumSec) : Nat := a.sec.toNat * 1000000000 + a.nsec.toNat

/-- The number in nanoseconds -/
def value (a : BignumSec) : Int := signed a.positive a.mag

/-- A second that was not carried -/
def Full (a : BignumSec) : Prop := a.nsec.toNat = 1000000000

instance (a : BignumSec) : Decidable a.Full := inferInstanceAs (Decidable (_ = _))

/-- `nsec` is less than a second. -/
def Normal (a : BignumSec) : Prop := a.nsec.toNat < 1000000000

instance (a : BignumSec) : Decidable a.Normal := inferInstanceAs (Decidable (_ < _))

variable {a b c r : BignumSec}

/-- The order of the unsigned comparisons, which is that of the magnitudes for normal numbers -/
def Above (a b : BignumSec) : Prop :=
  b.sec.toNat < a.sec.toNat ∨ a.sec.toNat = b.sec.toNat ∧ b.nsec.toNat < a.nsec.toNat

theorem greaterThanUnsigned_iff : bignumSecGreaterThanUnsigned a b = true ↔ a.Above b := by
  unfold bignumSecGreaterThanUnsigned Above
  simp only [gt_iff_lt, UInt64.lt_iff_toNat_lt]
  split
  · simp_all
  · split
    · simp; omega
    · simp; omega

theorem lessThanUnsigned_iff : bignumSecLessThanUnsigned a b = true ↔ b.Above a := by
  unfold bignumSecLessThanUnsigned Above
  simp only [gt_iff_lt, UInt64.lt_iff_toNat_lt]
  split
  · simp_all
  · split
    · simp; omega
    · simp; omega

theorem equal_iff : bignumSecEqual a b = true ↔ a = b := by
  obtain ⟨asec, ansec, apos⟩ := a
  obtain ⟨bsec, bnsec, bpos⟩ := b
  simp [bignumSecEqual]
  tauto

theorem assertion_iff : (a.sec > b.sec ∨ a.sec = b.sec ∧ a.nsec > b.nsec) ↔ a.Above b := by
  simp only [Above, gt_iff_lt, UInt64.lt_iff_toNat_lt, ← UInt64.toNat_inj]

/-- What the magnitude `m` is made of -/
structure Holds (r : BignumSec) (m : Nat) (full : Prop) : Prop where
  mag : r.mag = m
  le : r.nsec.toNat ≤ 1000000000
  full_iff : r.Full ↔ full

theorem addUnsigned_holds (ha : a.nsec.toNat ≤ 1000000000) (hb : b.Normal)
    (hfits : a.mag + b.mag < 2 ^ 64 * 1000000000) :
    (bignumSecAddUnsigned a b c).Holds (a.mag + b.mag) (a.nsec.toNat + b.nsec.toNat = 1000000000) := by
  have hnsec : (a.nsec + b.nsec).toNat = a.nsec.toNat + b.nsec.toNat := by
    rw [UInt64.toNat_add]; unfold Normal at hb; omega
  have hbillion : (1000000000 : UInt64).toNat = 1000000000 := rfl
  have hone : (1 : UInt64).toNat = 1 := rfl
  unfold Normal at hb
  unfold mag at hfits
  unfold bignumSecAddUnsigned
  simp only [gt_iff_lt, UInt64.lt_iff_toNat_lt, hnsec, hbillion]
  split
  · constructor
    · simp only [mag, UInt64.toNat_add, UInt64.toNat_sub, hbillion, hone]
      omega
    · simp only [UInt64.toNat_add, UInt64.toNat_sub, hbillion]
      omega
    · simp only [Full, UInt64.toNat_add, UInt64.toNat_sub, hbillion]
      omega
  · constructor
    · simp only [mag, UInt64.toNat_add]
      omega
    · simp only [UInt64.toNat_add]
      omega
    · simp only [Full, UInt64.toNat_add]
      omega

theorem subUnsigned_eq_none (h : ¬a.Above b) : bignumSecSubUnsigned a b c = none := by
  unfold bignumSecSubUnsigned
  rw [if_neg (mt assertion_iff.1 h)]

theorem subUnsigned_holds (h : a.Above b) (ha : a.nsec.toNat ≤ 1000000000) (hb : b.nsec.toNat ≤ 1000000000) :
    ∃ r, bignumSecSubUnsigned a b c = some r ∧ r.positive = c.positive ∧
      r.Holds (a.mag - b.mag) (a.Full ∧ b.nsec.toNat = 0) := by
  have hbillion : (1000000000 : UInt64).toNat = 1000000000 := rfl
  have hone : (1 : UInt64).toNat = 1 := rfl
  have hasec := a.sec.toNat_lt
  unfold bignumSecSubUnsigned
  rw [if_pos (assertion_iff.2 h)]
  unfold Above at h
  split
  · next hborrow =>
    rw [UInt64.lt_iff_toNat_lt] at hborrow
    refine ⟨_, rfl, rfl, ?_, ?_, ?_⟩
    · simp only [mag, UInt64.toNat_add, UInt64.toNat_sub, hbillion, hone]
      omega
    · simp only [UInt64.toNat_add, UInt64.toNat_sub, hbillion]
      omega
    · simp only [Full, UInt64.toNat_add, UInt64.toNat_sub, hbillion]
      omega
  · next hborrow =>
    rw [UInt64.lt_iff_toNat_lt] at hborrow
    refine ⟨_, rfl, rfl, ?_, ?_, ?_⟩
    · simp only [mag, UInt64.toNat_sub]
      omega
    · simp only [UInt64.toNat_sub]
      omega
    · simp only [Full, UInt64.toNat_sub]
      omega

theorem Above.mag_le (h : a.Above b) (hb : b.nsec.toNat ≤ 1000000000) : b.mag ≤ a.mag := by
  unfold mag; unfold Above at h; omega

theorem mag_eq_of_not_above (h : ¬a.Above b) (h' : ¬b.Above a) : a.mag = b.mag ∧ a.nsec = b.nsec := by
  have hsec : a.sec.toNat = b.sec.toNat := by unfold Above at h h'; omega
  have hnsec : a.nsec.toNat = b.nsec.toNat := by unfold Above at h h'; omega
  exact ⟨by rw [mag, mag, hsec, hnsec], UInt64.toNat_inj.1 hnsec⟩

theorem difference_cases (ha : a.nsec.toNat ≤ 1000000000) (hb : b.nsec.toNat ≤ 1000000000) :
    let diff := if bignumSecGreaterThanUnsigned a b then bignumSecSubUnsigned a b { c with positive := true }
      else bignumSecSubUnsigned b a { c with positive := false }
    diff = none ∧ a.mag = b.mag ∧ a.nsec = b.nsec ∨
      ∃ r, diff = some r ∧ (a.Above b ∨ b.Above a) ∧ r.value = (a.mag : Int) - b.mag ∧ r.nsec.toNat ≤ 1000000000 ∧
        (r.Full ↔ a.Above b ∧ a.Full ∧ b.nsec.toNat = 0 ∨ b.Above a ∧ b.Full ∧ a.nsec.toNat = 0) := by
  intro diff
  by_cases h : a.Above b
  · obtain ⟨r, hr, hpos, hholds⟩ := subUnsigned_holds (c := { c with positive := true }) h ha hb
    have hle := h.mag_le hb
    have hba : ¬b.Above a := by unfold Above at h ⊢; omega
    refine .inr ⟨r, ?_, .inl h, ?_, hholds.le, ?_⟩
    · simp only [diff]
      rw [if_pos (greaterThanUnsigned_iff.2 h)]
      exact hr
    · rw [value, hpos, hholds.mag, signed_true]
      omega
    · rw [hholds.full_iff]
      simp [h, hba]
  · have hdiff : diff = bignumSecSubUnsigned b a { c with positive := false } :=
      if_neg (mt greaterThanUnsigned_iff.1 h)
    rw [hdiff]
    by_cases h' : b.Above a
    · obtain ⟨r, hr, hpos, hholds⟩ := subUnsigned_holds (c := { c with positive := false }) h' hb ha
      have hle := h'.mag_le ha
      refine .inr ⟨r, hr, .inr h', ?_, hholds.le, ?_⟩
      · rw [value, hpos, hholds.mag, signed_false]
        omega
      · rw [hholds.full_iff]
        simp [h, h']
    · exact .inl ⟨subUnsigned_eq_none h', mag_eq_of_not_above h h'⟩

/-- The total `total + d` ends on a full second, where `full` says the same of `total`: the fractions
of both add up to a second, or `total` ended on one and `d` is a number of seconds. -/
def Carries (total : Int) (full : Prop) (d : Int) : Prop :=
  (total + d).natAbs % 1000000000 = 0 ∧ SameSign total (total + d) ∧
    (full ∨ d.natAbs % 1000000000 ≠ 0 ∧ SameSign total d)

instance (total : Int) (full : Prop) [Decidable full] (d : Int) : Decidable (Carries total full d) := by
  unfold Carries; infer_instance

@[simp] theorem addUnsigned_positive : (bignumSecAddUnsigned a b c).positive = c.positive := by
  unfold bignumSecAddUnsigned
  simp only
  split <;> rfl

theorem add_same (hsign : a.positive = b.positive) (ha : a.nsec.toNat ≤ 1000000000) (hb : b.Normal)
    (hfits : |a.value + b.value| < 2 ^ 64 * 1000000000) :
    ∃ r, bignumSecAdd a b c = some r ∧ r.value = a.value + b.value ∧ r.nsec.toNat ≤ 1000000000 ∧
      (r.Full ↔ Carries a.value a.Full b.value) := by
  have hvalue : a.value + b.value = signed a.positive (a.mag + b.mag) := by
    rw [signed_add, value, value, hsign]
  have hmag : a.mag + b.mag < 2 ^ 64 * 1000000000 := by
    rw [hvalue, Int.abs_eq_natAbs, natAbs_signed] at hfits
    omega
  have hholds := addUnsigned_holds (c := { c with positive := a.positive }) ha hb hmag
  refine ⟨_, if_pos hsign, ?_, hholds.le, ?_⟩
  · rw [hvalue, ← hholds.mag, value, addUnsigned_positive]
  · rw [hholds.full_iff, Carries, hvalue, value, value, ← hsign]
    simp only [natAbs_signed, sameSign_signed]
    unfold Normal at hb
    unfold Full mag
    omega

theorem Normal.not_full (h : a.Normal) : ¬a.Full := by
  unfold Normal at h
  unfold Full
  omega

theorem full_of_mag_eq (ha : a.nsec.toNat ≤ 1000000000) (hb : b.Normal) (h : a.Above b ∨ b.Above a)
    (hmag : a.mag = b.mag) : a.Full := by
  unfold Above at h
  unfold Normal at hb
  unfold Full
  unfold mag at hmag
  omega

/-- A difference keeps the full second of the number it is taken from if it is one of whole seconds. -/
theorem above_full_iff (hb : b.Normal) :
    (a.Above b ∧ a.Full ∧ b.nsec.toNat = 0 ∨ b.Above a ∧ b.Full ∧ a.nsec.toNat = 0) ↔
      (a.mag - b.mag + (b.mag - a.mag)) % 1000000000 = 0 ∧ b.mag < a.mag ∧ a.Full := by
  have hbfull := hb.not_full
  simp only [hbfull, false_and, and_false, or_false]
  unfold Above Full Normal mag at *
  constructor
  · rintro ⟨habove, hfull, hzero⟩
    refine ⟨?_, ?_, hfull⟩
    · omega
    · omega
  · rintro ⟨hmod, hlt, hfull⟩
    refine ⟨?_, hfull, ?_⟩
    · omega
    · omega

theorem add_differ {diff : Option BignumSec} (hsign : b.positive = !a.positive) (ha : a.nsec.toNat ≤ 1000000000)
    (hb : b.Normal)
    (hdiff : diff = none ∧ a.mag = b.mag ∧ a.nsec = b.nsec ∨
      ∃ r, diff = some r ∧ (a.Above b ∨ b.Above a) ∧ r.value = a.value + b.value ∧ r.nsec.toNat ≤ 1000000000 ∧
        (r.Full ↔ a.Above b ∧ a.Full ∧ b.nsec.toNat = 0 ∨ b.Above a ∧ b.Full ∧ a.nsec.toNat = 0)) :
    diff = none ∧ a.value + b.value = 0 ∧ ¬a.Full ∨
      ∃ r, diff = some r ∧ (a.value + b.value = 0 → a.Full) ∧ r.value = a.value + b.value ∧
        r.nsec.toNat ≤ 1000000000 ∧ (r.Full ↔ Carries a.value a.Full b.value) := by
  have hzero : a.value + b.value = 0 ↔ a.mag = b.mag := by
    rw [← Int.natAbs_eq_zero, value, value, hsign, natAbs_signed_sub]
    omega
  rcases hdiff with ⟨hnone, hmag, hnsec⟩ | ⟨r, hr, habove, hvalue, hle, hfull⟩
  · refine .inl ⟨hnone, hzero.2 hmag, ?_⟩
    rw [Full, hnsec]
    exact hb.not_full
  · refine .inr ⟨r, hr, fun h => full_of_mag_eq ha hb habove (hzero.1 h), hvalue, hle, ?_⟩
    · have hnot : ¬SameSign (signed a.positive a.mag) (signed (!a.positive) b.mag) := not_sameSign_signed_not
      rw [hfull, Carries, value, value, hsign, natAbs_signed_sub, sameSign_signed_sub, above_full_iff hb]
      simp only [hnot, and_false, or_false]

theorem not_eq_of_differ (hsign : a.positive ≠ b.positive) : b.positive = !a.positive := by
  cases hpa : a.positive <;> cases hpb : b.positive <;> simp_all

theorem add_of_differ (ha : a.positive = true) (hb : b.positive = false) :
    bignumSecAdd a b c =
      if bignumSecGreaterThanUnsigned a b then bignumSecSubUnsigned a b { c with positive := true }
      else bignumSecSubUnsigned b a { c with positive := false } := by
  simp [bignumSecAdd, ha, hb]

theorem add_of_differ' (ha : a.positive = false) (hb : b.positive = true) :
    bignumSecAdd a b c =
      if bignumSecGreaterThanUnsigned b a then bignumSecSubUnsigned b a { c with positive := true }
      else bignumSecSubUnsigned a b { c with positive := false } := by
  simp [bignumSecAdd, ha, hb]

theorem add_cases (ha : a.nsec.toNat ≤ 1000000000) (hb : b.Normal)
    (hfits : |a.value + b.value| < 2 ^ 64 * 1000000000) (hne : b.value ≠ 0) :
    bignumSecAdd a b c = none ∧ a.value + b.value = 0 ∧ ¬a.Full ∨
      ∃ r, bignumSecAdd a b c = some r ∧ (a.value + b.value = 0 → a.Full) ∧ r.value = a.value + b.value ∧
        r.nsec.toNat ≤ 1000000000 ∧ (r.Full ↔ Carries a.value a.Full b.value) := by
  have hble : b.nsec.toNat ≤ 1000000000 := Nat.le_of_lt hb
  by_cases hsign : a.positive = b.positive
  · obtain ⟨r, hr, hvalue, hle, hfull⟩ := add_same (c := c) hsign ha hb hfits
    refine .inr ⟨r, hr, fun hzero => ?_, hvalue, hle, hfull⟩
    rw [value, value, ← hsign, ← signed_add, signed_eq_zero_iff] at hzero
    rw [value, Ne, signed_eq_zero_iff] at hne
    omega
  · refine add_differ (not_eq_of_differ hsign) ha hb ?_
    cases hpos : a.positive with
    | true =>
      have hpos' : b.positive = false := by rw [not_eq_of_differ hsign, hpos]; rfl
      rw [add_of_differ hpos hpos']
      rcases difference_cases (c := c) ha hble with h | ⟨r, hr, habove, hvalue, hle, hfull⟩
      · exact .inl h
      · refine .inr ⟨r, hr, habove, ?_, hle, hfull⟩
        rw [hvalue, value, value, hpos, hpos', signed_true, signed_false, Int.sub_eq_add_neg]
    | false =>
      have hpos' : b.positive = true := by rw [not_eq_of_differ hsign, hpos]; rfl
      rw [add_of_differ' hpos hpos']
      rcases difference_cases (c := c) hble ha with ⟨h, hmag, hnsec⟩ | ⟨r, hr, habove, hvalue, hle, hfull⟩
      · exact .inl ⟨h, hmag.symm, hnsec.symm⟩
      · refine .inr ⟨r, hr, habove.symm, ?_, hle, hfull.trans or_comm⟩
        rw [hvalue, value, value, hpos, hpos', signed_true, signed_false, Int.sub_eq_add_neg, Int.add_comm]

theorem sub_cases (ha : a.Normal) (hb : b.Normal) (hpa : a.positive = true) (hpb : b.positive = true) :
    bignumSecSub a b c = none ∧ a.value = b.value ∨
      ∃ r, bignumSecSub a b c = some r ∧ r.value = a.value - b.value ∧ r.value ≠ 0 ∧ r.Normal := by
  have hvalue : a.value - b.value = (a.mag : Int) - b.mag := by
    rw [value, value, hpa, hpb]; rfl
  unfold bignumSecSub
  simp only [hpa, hpb, and_self, if_true]
  rcases difference_cases (c := if bignumSecEqual a b then { sec := 0, nsec := 0, positive := true } else c)
    (Nat.le_of_lt ha) (Nat.le_of_lt hb) with ⟨h, hmag, -⟩ | ⟨r, hr, habove, hr', hle, hfull⟩
  · refine .inl ⟨h, ?_⟩
    rw [value, value, hpa, hpb, hmag]
  · refine .inr ⟨r, hr, hr'.trans hvalue.symm, ?_, ?_⟩
    · rw [hr']
      unfold Above Normal mag at *
      omega
    · unfold Full Normal at *
      omega

/-! ### Comparisons and division -/

theorem above_iff (ha : a.Normal) (hb : b.Normal) : a.Above b ↔ b.mag < a.mag := by
  unfold Above Normal mag at *
  omega

theorem greaterThanUnsigned_eq (ha : a.Normal) (hb : b.Normal) :
    bignumSecGreaterThanUnsigned a b = decide (b.mag < a.mag) :=
  Bool.eq_iff_iff.2 ((greaterThanUnsigned_iff.trans (above_iff ha hb)).trans decide_eq_true_iff.symm)

theorem lessThanUnsigned_eq (ha : a.Normal) (hb : b.Normal) :
    bignumSecLessThanUnsigned a b = decide (a.mag < b.mag) :=
  Bool.eq_iff_iff.2 ((lessThanUnsigned_iff.trans (above_iff hb ha)).trans decide_eq_true_iff.symm)

theorem value_eq_zero_iff : a.value = 0 ↔ a.mag = 0 := signed_eq_zero_iff

/-- Zero has one sign in both numbers, if both are zero. -/
def SameZero (a b : BignumSec) : Prop := a.value = 0 → b.value = 0 → a.positive = b.positive

theorem SameZero.signed (h : a.SameZero b) : a.mag = 0 → b.mag = 0 → a.positive = b.positive :=
  fun ha hb => h (value_eq_zero_iff.2 ha) (value_eq_zero_iff.2 hb)

theorem lessThan_iff (ha : a.Normal) (hb : b.Normal) (hzero : a.SameZero b) :
    bignumSecLessThan a b = true ↔ a.value < b.value := by
  by_cases heq : bignumSecEqual a b = true
  · have hval : a.value = b.value := by rw [equal_iff.1 heq]
    simp [bignumSecLessThan, heq, hval]
  · rw [value, value, signed_lt_iff hzero.signed, bignumSecLessThan, if_neg heq, lessThanUnsigned_eq ha hb,
      greaterThanUnsigned_eq ha hb]

theorem greaterThan_iff (ha : a.Normal) (hb : b.Normal) (hzero : a.SameZero b) :
    bignumSecGreaterThan a b = true ↔ b.value < a.value := by
  by_cases heq : bignumSecEqual a b = true
  · have hval : a.value = b.value := by rw [equal_iff.1 heq]
    simp [bignumSecGreaterThan, heq, hval]
  · rw [value, value, lt_signed_iff hzero.signed, bignumSecGreaterThan, if_neg heq, lessThanUnsigned_eq ha hb,
      greaterThanUnsigned_eq ha hb]

theorem isZero_iff : bignumSecIsZero a = true ↔ a.value = 0 := by
  have hmag : a.mag = 0 ↔ a.sec.toNat = 0 ∧ a.nsec.toNat = 0 := by unfold mag; omega
  rw [value, signed_eq_zero_iff, hmag]
  simp [bignumSecIsZero, ← UInt64.toNat_inj]

theorem div_seconds {n : Nat} (hn : 0 < n) (sec nsec : Nat) :
    (sec * 1000000000 + nsec) / n = sec / n * 1000000000 + (sec % n * 1000000000 + nsec) / n := by
  have hsplit : sec * 1000000000 + nsec = n * (sec / n * 1000000000) + (sec % n * 1000000000 + nsec) := by
    calc sec * 1000000000 + nsec = (n * (sec / n) + sec % n) * 1000000000 + nsec := by rw [Nat.div_add_mod]
      _ = n * (sec / n * 1000000000) + (sec % n * 1000000000 + nsec) := by ring
  rw [hsplit, Nat.mul_add_div hn]

theorem div_fraction_le {n nsec : Nat} (hn : 0 < n) (sec : Nat) (hnsec : nsec ≤ 1000000000) :
    (sec % n * 1000000000 + nsec) / n ≤ 1000000000 := by
  have hrem : sec % n < n := Nat.mod_lt _ hn
  calc (sec % n * 1000000000 + nsec) / n
      ≤ n * 1000000000 / n := Nat.div_le_div_right (by omega)
    _ = 1000000000 := Nat.mul_div_cancel_left _ hn

theorem divs_nsec_toNat {n : UInt32} (hn : 0 < n.toNat) (ha : a.nsec.toNat ≤ 1000000000) :
    ((a.sec % n.toUInt64 * 1000000000 + a.nsec) / n.toUInt64).toNat =
      (a.sec.toNat % n.toNat * 1000000000 + a.nsec.toNat) / n.toNat := by
  have hn32 := n.toNat_lt
  have hrem : a.sec.toNat % n.toNat < n.toNat := Nat.mod_lt _ hn
  have hbillion : (1000000000 : UInt64).toNat = 1000000000 := rfl
  simp only [UInt64.toNat_div, UInt64.toNat_add, UInt64.toNat_mul, UInt64.toNat_mod, UInt32.toNat_toUInt64, hbillion]
  congr 1
  omega

theorem divsUnsigned_mag {n : UInt32} (hn : n ≠ 0) (ha : a.nsec.toNat ≤ 1000000000)
    (hfits : a.mag < 2 ^ 64 * 1000000000) :
    ∃ r, bignumSecDivsUnsigned a n c = some r ∧ r.positive = c.positive ∧ r.mag = a.mag / n.toNat := by
  have hpos : 0 < n.toNat := Nat.pos_of_ne_zero fun h => hn (UInt32.toNat_inj.1 h)
  have hfrac := div_fraction_le hpos a.sec.toNat ha
  have hmag : a.mag / n.toNat = _ := div_seconds hpos a.sec.toNat a.nsec.toNat
  have hlt : a.mag / n.toNat < 2 ^ 64 * 1000000000 := Nat.lt_of_le_of_lt (Nat.div_le_self ..) hfits
  have hbillion : (1000000000 : UInt64).toNat = 1000000000 := rfl
  have hsec : (a.sec / n.toUInt64).toNat = a.sec.toNat / n.toNat := by
    rw [UInt64.toNat_div, UInt32.toNat_toUInt64]
  refine ⟨_, if_neg hn, rfl, ?_⟩
  rw [hmag] at hlt ⊢
  simp only [mag, UInt64.toNat_add, UInt64.toNat_sub, UInt64.toNat_mul, UInt64.toNat_div, divs_nsec_toNat hpos ha, hsec,
    hbillion]
  generalize (a.sec.toNat % n.toNat * 1000000000 + a.nsec.toNat) / n.toNat = frac at *
  generalize a.sec.toNat / n.toNat = quot at *
  omega

/-- The quotient is truncated toward zero and has the sign of the dividend. -/
theorem divs_eq {n : UInt32} (hn : n ≠ 0) (ha : a.nsec.toNat ≤ 1000000000) (hfits : a.mag < 2 ^ 64 * 1000000000) :
    ∃ r, bignumSecDivs a n c = some r ∧ r.value = a.value.tdiv n.toNat ∧ r.positive = a.positive := by
  obtain ⟨r, hr, hpos, hmag⟩ := divsUnsigned_mag (c := { c with positive := a.positive }) hn ha hfits
  refine ⟨r, hr, ?_, hpos⟩
  rw [value, hpos, hmag, signed_tdiv, value]

end BignumSec
end Injector
end WlanxVms
