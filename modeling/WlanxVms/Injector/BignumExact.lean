import Mathlib.Algebra.BigOperators.Group.List.Basic
import WlanxVms.Injector.BignumSec

/-!
# When the signed operations are exact (`bignum_sec_profiling.c`)

The operands are normal and the exact result has seconds of 64 bits. Addition of equal signs goes wrong
where the fractions add up to a second, which is not carried (`>` for `>=`). A difference of equal
magnitudes fails the assertion of `bignum_sec_sub_unsigned`, in `bignum_sec_sub` although equal numbers
are looked for first, since the branch for them does not return. Comparisons and division are right.
-/

namespace WlanxVms
namespace Injector
namespace BignumSec

variable {a b c r : BignumSec}

/-- The seconds of `v` nanoseconds have 64 bits. -/
def Fits (v : Int) : Prop := |v| < 2 ^ 64 * 1000000000

instance (v : Int) : Decidable (Fits v) := inferInstanceAs (Decidable (_ < _))

/-- The operation ends with the normal number for `v`. -/
def Gives (r : Option BignumSec) (v : Int) : Prop := ∃ x, r = some x ∧ x.Normal ∧ x.value = v

/-- The fractions of both add up to a second. -/
def FractionsCarry (a b : BignumSec) : Prop := a.nsec.toNat + b.nsec.toNat = 1000000000

instance (a b : BignumSec) : Decidable (a.FractionsCarry b) := inferInstanceAs (Decidable (_ = _))

theorem not_gives_none {v : Int} : ¬Gives none v := by
  rintro ⟨x, hx, -, -⟩
  cases hx

theorem gives_some_iff {v : Int} : Gives (some r) v ↔ r.Normal ∧ r.value = v :=
  ⟨fun ⟨_, hx, h⟩ => Option.some.inj hx ▸ h, fun h => ⟨r, rfl, h⟩⟩

instance : (r : Option BignumSec) → (v : Int) → Decidable (Gives r v)
  | none, _ => isFalse not_gives_none
  | some _, _ => decidable_of_iff _ gives_some_iff.symm

theorem normal_iff_not_full (h : r.nsec.toNat ≤ 1000000000) : r.Normal ↔ ¬r.Full := by
  unfold Normal Full
  omega

theorem eq_of_value_eq (ha : a.Normal) (hb : b.Normal) (h : a.value = b.value) (hpos : a.positive = b.positive) :
    a = b := by
  have hmag : a.mag = b.mag := by
    rw [← natAbs_signed (p := a.positive) (m := a.mag), ← natAbs_signed (p := b.positive) (m := b.mag)]
    exact congrArg Int.natAbs h
  unfold Normal at ha hb
  unfold mag at hmag
  obtain ⟨asec, ansec, apos⟩ := a
  obtain ⟨bsec, bnsec, bpos⟩ := b
  simp only at hmag ha hb hpos
  have hsec : asec = bsec := UInt64.toNat_inj.1 (by omega)
  have hnsec : ansec = bnsec := UInt64.toNat_inj.1 (by omega)
  rw [hsec, hnsec, hpos]

theorem positive_eq_of_value_eq (h : a.value = b.value) (hne : a.value ≠ 0) : a.positive = b.positive := by
  rw [eq_decide_of_signed_ne_zero hne, eq_decide_of_signed_ne_zero (h ▸ hne : b.value ≠ 0)]
  exact congrArg (fun v : Int => decide (0 ≤ v)) h

/-! ### Unsigned results -/

/-- The sum of the magnitudes under the sign of `c` is exact, up to the second that is not carried. -/
theorem gives_addUnsigned (ha : a.Normal) (hb : b.Normal) (hfits : a.mag + b.mag < 2 ^ 64 * 1000000000) :
    Gives (some (bignumSecAddUnsigned a b c)) (signed c.positive (a.mag + b.mag)) ↔ ¬a.FractionsCarry b := by
  have hholds := addUnsigned_holds (c := c) (Nat.le_of_lt ha) hb hfits
  have hvalue : (bignumSecAddUnsigned a b c).value = signed c.positive (a.mag + b.mag) := by
    rw [value, addUnsigned_positive, hholds.mag]
  rw [← hvalue, gives_some_iff, and_iff_left rfl, normal_iff_not_full hholds.le, hholds.full_iff]
  rfl

/-- The branch for a difference of magnitudes is exact, unless they are equal. -/
theorem gives_difference (ha : a.Normal) (hb : b.Normal) :
    Gives (if bignumSecGreaterThanUnsigned a b then bignumSecSubUnsigned a b { c with positive := true }
      else bignumSecSubUnsigned b a { c with positive := false }) ((a.mag : Int) - b.mag) ↔ a.mag ≠ b.mag := by
  rcases difference_cases (c := c) (Nat.le_of_lt ha) (Nat.le_of_lt hb) with
    ⟨hnone, hmag, -⟩ | ⟨r, hr, habove, hvalue, hle, hfull⟩
  · rw [hnone]
    exact iff_of_false not_gives_none (not_not.2 hmag)
  · rw [hr]
    refine iff_of_true ⟨r, rfl, (normal_iff_not_full hle).2 ?_, hvalue⟩ ?_
    · rw [hfull]
      rintro (⟨-, h, -⟩ | ⟨-, h, -⟩)
      · exact ha.not_full h
      · exact hb.not_full h
    · rw [above_iff ha hb, above_iff hb ha] at habove
      omega

/-! ### Addition -/

/-- The additions that are exact: of equal signs unless the fractions add up to a second, and of different
signs unless the magnitudes are equal -/
def AddOk (a b : BignumSec) : Prop :=
  a.positive = b.positive ∧ ¬a.FractionsCarry b ∨ a.positive ≠ b.positive ∧ a.mag ≠ b.mag

instance (a b : BignumSec) : Decidable (a.AddOk b) := by unfold AddOk; infer_instance

theorem fits_signed {p : Bool} {m : Nat} : Fits (signed p m) ↔ m < 2 ^ 64 * 1000000000 := by
  rw [Fits, Int.abs_eq_natAbs, natAbs_signed]
  omega

theorem add_gives (ha : a.Normal) (hb : b.Normal) (hfits : Fits (a.value + b.value)) :
    Gives (bignumSecAdd a b c) (a.value + b.value) ↔ a.AddOk b := by
  by_cases hsign : a.positive = b.positive
  · have hvalue : a.value + b.value = signed a.positive (a.mag + b.mag) := by
      rw [signed_add, value, value, hsign]
    rw [hvalue, fits_signed] at hfits
    rw [hvalue, bignumSecAdd, if_pos hsign]
    refine (gives_addUnsigned (c := { c with positive := a.positive }) ha hb hfits).trans ?_
    simp [AddOk, hsign]
  · have hok : a.AddOk b ↔ a.mag ≠ b.mag := by simp [AddOk, hsign]
    cases hpos : a.positive with
    | true =>
      have hpos' : b.positive = false := by simpa [hpos] using hsign
      have hvalue : a.value + b.value = (a.mag : Int) - b.mag := by
        rw [value, value, hpos, hpos', signed_true, signed_false, Int.sub_eq_add_neg]
      rw [add_of_differ hpos hpos', hvalue, gives_difference ha hb, hok]
    | false =>
      have hpos' : b.positive = true := by simpa [hpos] using hsign
      have hvalue : a.value + b.value = (b.mag : Int) - a.mag := by
        rw [value, value, hpos, hpos', signed_true, signed_false, Int.sub_eq_add_neg, Int.add_comm]
      rw [add_of_differ' hpos hpos', hvalue, gives_difference hb ha, hok, ne_comm]

theorem AddOk.zero (h : a.AddOk b) (hzero : a.value + b.value = 0) :
    a.positive = b.positive ∧ a.value = 0 ∧ b.value = 0 := by
  rcases h with ⟨hsign, -⟩ | ⟨hsign, hmag⟩
  · rw [value, value, ← hsign, ← signed_add, signed_eq_zero_iff] at hzero
    refine ⟨hsign, value_eq_zero_iff.2 ?_, value_eq_zero_iff.2 ?_⟩ <;> omega
  · rw [← Int.natAbs_eq_zero, value, value, not_eq_of_differ hsign, natAbs_signed_sub] at hzero
    omega

theorem add_positive (hsign : a.positive = b.positive) (hr : bignumSecAdd a b c = some r) :
    r.positive = a.positive := by
  rw [bignumSecAdd, if_pos hsign] at hr
  rw [← Option.some.inj hr, addUnsigned_positive]

/-- Numbers added up in some order -/
inductive AddTree where
  | num (a : BignumSec)
  | add (s t : AddTree)

namespace AddTree

def eval : AddTree → Option BignumSec
  | num a => some a
  | add s t => s.eval.bind fun a => t.eval.bind fun b => bignumSecAdd a b (bignumSecAssigns true 0 0)

def nums : AddTree → List BignumSec
  | num a => [a]
  | add s t => s.nums ++ t.nums

def value (t : AddTree) : Int := (t.nums.map BignumSec.value).sum

/-- The numbers are normal, every partial sum fits and every addition is one of the exact ones. -/
def Ok : AddTree → Prop
  | num a => a.Normal
  | add s t => s.Ok ∧ t.Ok ∧ Fits (s.value + t.value) ∧ ∀ a ∈ s.eval, ∀ b ∈ t.eval, a.AddOk b

instance Ok.decidable : (t : AddTree) → Decidable t.Ok
  | num a => inferInstanceAs (Decidable a.Normal)
  | add s t =>
    have := Ok.decidable s
    have := Ok.decidable t
    inferInstanceAs (Decidable (_ ∧ _ ∧ _ ∧ _))

variable {s t : AddTree}

@[simp] theorem value_num : (num a).value = a.value := by simp [value, nums]

@[simp] theorem value_add : (add s t).value = s.value + t.value := by simp [value, nums]

theorem nums_ne_nil : ∀ t : AddTree, t.nums ≠ []
  | num a => List.cons_ne_nil a []
  | add s _ => List.append_ne_nil_of_left_ne_nil s.nums_ne_nil _

theorem Ok.eval (h : t.Ok) :
    ∃ r, t.eval = some r ∧ r.Normal ∧ r.value = t.value ∧ (r.value = 0 → ∀ x ∈ t.nums, x.positive = r.positive) := by
  induction t with
  | num a =>
    refine ⟨a, rfl, h, value_num.symm, fun _ x hx => ?_⟩
    rw [List.mem_singleton.1 hx]
  | add s t ihs iht =>
    obtain ⟨hs, ht, hfits, hok⟩ := h
    obtain ⟨a, ha, hanormal, havalue, hazero⟩ := ihs hs
    obtain ⟨b, hb, hbnormal, hbvalue, hbzero⟩ := iht ht
    have hok := hok a ha b hb
    rw [← havalue, ← hbvalue] at hfits
    obtain ⟨r, hr, hrnormal, hrvalue⟩ := (add_gives (c := bignumSecAssigns true 0 0) hanormal hbnormal hfits).2 hok
    refine ⟨r, ?_, hrnormal, ?_, fun hzero x hx => ?_⟩
    · simp [AddTree.eval, ha, hb, hr]
    · rw [hrvalue, havalue, hbvalue, value_add]
    · rw [hrvalue] at hzero
      obtain ⟨hsign, ha0, hb0⟩ := hok.zero hzero
      have hpos := add_positive hsign hr
      rcases List.mem_append.1 hx with hx | hx
      · rw [hazero ha0 x hx, hpos]
      · rw [hbzero hb0 x hx, hpos, hsign]

theorem Ok.eval_perm (hs : s.Ok) (ht : t.Ok) (h : s.nums.Perm t.nums) :
    ∃ x, s.eval = some x ∧ t.eval = some x := by
  obtain ⟨x, hx, hxnormal, hxvalue, hxzero⟩ := hs.eval
  obtain ⟨y, hy, hynormal, hyvalue, hyzero⟩ := ht.eval
  have hvalue : x.value = y.value := by
    rw [hxvalue, hyvalue]
    exact (h.map BignumSec.value).sum_eq
  have hpos : x.positive = y.positive := by
    by_cases hzero : x.value = 0
    · obtain ⟨z, hz⟩ := List.exists_mem_of_ne_nil _ s.nums_ne_nil
      rw [← hxzero hzero z hz, hyzero (hvalue ▸ hzero) z (h.mem_iff.1 hz)]
    · exact positive_eq_of_value_eq hvalue hzero
  rw [eq_of_value_eq hxnormal hynormal hvalue hpos] at hx
  exact ⟨y, hx, hy⟩

end AddTree

/-- `bignum_sec_add` is exact where `AddOk` holds and only there; sums made of exact additions do not
depend on their order. -/
theorem add_exact_iff (a b c : BignumSec) (s t : AddTree) (ha : a.Normal) (hb : b.Normal)
    (hfits : Fits (a.value + b.value)) (hs : s.Ok) (ht : t.Ok) (hperm : s.nums.Perm t.nums) :
    (Gives (bignumSecAdd a b c) (a.value + b.value) ↔ a.AddOk b) ∧
      ∃ x y, s.eval = some x ∧ t.eval = some y ∧ bignumSecEqual x y = true := by
  refine ⟨add_gives ha hb hfits, ?_⟩
  obtain ⟨x, hx, hy⟩ := hs.eval_perm ht hperm
  exact ⟨x, x, hx, hy, equal_iff.2 rfl⟩

theorem add_exact_iff_orders :
    (Gives (bignumSecAdd (bignumSecAssigns true 1 700000000) (bignumSecAssigns true 2 600000000)
        (bignumSecAssigns true 0 0)) 4300000000 ↔
      (bignumSecAssigns true 1 700000000).AddOk (bignumSecAssigns true 2 600000000)) ∧
    ∃ x y, (AddTree.add (.num (bignumSecAssigns true 1 700000000)) (.num (bignumSecAssigns false 0 200000000))).eval
        = some x ∧
      (AddTree.add (.num (bignumSecAssigns false 0 200000000)) (.num (bignumSecAssigns true 1 700000000))).eval
        = some y ∧ bignumSecEqual x y = true :=
  add_exact_iff (bignumSecAssigns true 1 700000000) (bignumSecAssigns true 2 600000000) _ _ _ (by decide) (by decide)
    (by decide) (by decide) (by decide) (.swap _ _ [])

/-- Half a second twice, a number and its negation, and three numbers that two orders add up to different
representations of a second -/
theorem not_add_exact :
    ¬Gives (bignumSecAdd (bignumSecAssigns true 0 500000000) (bignumSecAssigns true 0 500000000)
      (bignumSecAssigns true 0 0)) 1000000000 ∧
    bignumSecAdd (bignumSecAssigns true 1 0) (bignumSecAssigns false 1 0) (bignumSecAssigns true 0 0) = none ∧
    (AddTree.add (.add (.num (bignumSecAssigns false 0 500000000)) (.num (bignumSecAssigns true 0 800000000)))
      (.num (bignumSecAssigns true 0 700000000))).eval = some (bignumSecAssigns true 0 1000000000) ∧
    (AddTree.add (.num (bignumSecAssigns false 0 500000000)) (.add (.num (bignumSecAssigns true 0 800000000))
      (.num (bignumSecAssigns true 0 700000000)))).eval = some (bignumSecAssigns true 1 0) ∧
    bignumSecEqual (bignumSecAssigns true 0 1000000000) (bignumSecAssigns true 1 0) = false := by
  decide

/-! ### Subtraction -/

/-- The subtractions that are exact: of different signs unless the fractions add up to a second, and of
equal signs unless the magnitudes are equal; taking `+0` from `-0` leaves `-0`. -/
def SubOk (a b : BignumSec) : Prop :=
  a.positive = b.positive ∧ a.mag ≠ b.mag ∨
    a.positive ≠ b.positive ∧ ¬a.FractionsCarry b ∧ (a.value = b.value → a.positive = true)

instance (a b : BignumSec) : Decidable (a.SubOk b) := by unfold SubOk; infer_instance

/-- The operation ends with the normal number for `a - b`, which is `+0` for equal numbers. -/
def GivesSub (r : Option BignumSec) (a b : BignumSec) : Prop :=
  Gives r (a.value - b.value) ∧ (a.value = b.value → r = some (bignumSecAssigns true 0 0))

instance (r : Option BignumSec) (a b : BignumSec) : Decidable (GivesSub r a b) := by
  unfold GivesSub; infer_instance

/-- `c` when the branch for equal numbers has been passed -/
def afterEqual (a b c : BignumSec) : BignumSec :=
  if bignumSecEqual a b then { sec := 0, nsec := 0, positive := true } else c

theorem sub_gives_same (hsign : a.positive = b.positive) (ha : a.Normal) (hb : b.Normal) :
    Gives (bignumSecSub a b c) (a.value - b.value) ↔ a.mag ≠ b.mag := by
  cases hpos : a.positive with
  | true =>
    have hpos' : b.positive = true := hsign ▸ hpos
    have hvalue : a.value - b.value = (a.mag : Int) - b.mag := by
      rw [value, value, hpos, hpos', signed_true, signed_true]
    rw [hvalue, ← gives_difference (c := afterEqual a b c) ha hb]
    simp [bignumSecSub, afterEqual, hpos, hpos']
  | false =>
    have hpos' : b.positive = false := hsign ▸ hpos
    have hvalue : a.value - b.value = (b.mag : Int) - a.mag := by
      rw [value, value, hpos, hpos', signed_false, signed_false]
      omega
    rw [hvalue, ne_comm, ← gives_difference (c := afterEqual a b c) hb ha]
    simp [bignumSecSub, afterEqual, hpos, hpos']

theorem sub_of_differ (hsign : a.positive ≠ b.positive) :
    bignumSecSub a b c = some (bignumSecAddUnsigned a b { afterEqual a b c with positive := a.positive }) := by
  rw [bignumSecSub, ← afterEqual]
  cases hpos : a.positive with
  | true =>
    have hpos' : b.positive = false := by simpa [hpos] using hsign
    rw [if_neg (by simp [hpos']), if_pos (by simp [hpos'])]
  | false =>
    have hpos' : b.positive = true := by simpa [hpos] using hsign
    rw [if_neg (by simp), if_neg (by simp), if_pos (by simp [hpos'])]

theorem sub_value (hsign : a.positive ≠ b.positive) : a.value - b.value = signed a.positive (a.mag + b.mag) := by
  rw [value, value, not_eq_of_differ hsign, signed_sub_not]

theorem value_eq_iff_of_differ (hsign : a.positive ≠ b.positive) : a.value = b.value ↔ a.mag = 0 ∧ b.mag = 0 := by
  rw [← Int.sub_eq_zero, sub_value hsign, signed_eq_zero_iff]
  omega

theorem eq_zero_iff : r = bignumSecAssigns true 0 0 ↔ r.mag = 0 ∧ r.positive = true := by
  have hmag : r.mag = 0 ↔ r.sec = 0 ∧ r.nsec = 0 := by
    simp only [mag, ← UInt64.toNat_inj, UInt64.toNat_zero]
    omega
  obtain ⟨sec, nsec, positive⟩ := r
  rw [hmag, bignumSecAssigns, mk.injEq, and_assoc]

/-- `bignum_sec_sub` is exact, with `+0` for equal numbers, where `SubOk` holds and only there. -/
theorem sub_exact_iff (a b c : BignumSec) (ha : a.Normal) (hb : b.Normal) (hfits : Fits (a.value - b.value)) :
    GivesSub (bignumSecSub a b c) a b ↔ a.SubOk b := by
  by_cases hsign : a.positive = b.positive
  · have hok : a.SubOk b ↔ a.mag ≠ b.mag := by simp [SubOk, hsign]
    have hvalue : a.mag ≠ b.mag → a.value ≠ b.value := by
      intro hmag heq
      rw [value, value, hsign] at heq
      exact hmag (by simpa using congrArg Int.natAbs heq)
    rw [GivesSub, sub_gives_same hsign ha hb, hok]
    exact and_iff_left_of_imp fun hmag heq => absurd heq (hvalue hmag)
  · have hvalue := sub_value hsign
    rw [hvalue, fits_signed] at hfits
    have hgives := gives_addUnsigned (c := { afterEqual a b c with positive := a.positive }) ha hb hfits
    rw [← hvalue] at hgives
    have hok : a.SubOk b ↔ ¬a.FractionsCarry b ∧ (a.value = b.value → a.positive = true) := by simp [SubOk, hsign]
    rw [GivesSub, sub_of_differ hsign, hgives, hok]
    refine and_congr_right fun _ => forall_congr' fun heq => ?_
    obtain ⟨hamag, hbmag⟩ := (value_eq_iff_of_differ hsign).1 heq
    rw [Option.some.injEq, eq_zero_iff, (addUnsigned_holds (Nat.le_of_lt ha) hb hfits).mag, addUnsigned_positive,
      hamag, hbmag]
    exact and_iff_right rfl

theorem sub_exact_iff_borrow :
    GivesSub (bignumSecSub (bignumSecAssigns false 1 300000000) (bignumSecAssigns false 2 100000000)
        (bignumSecAssigns true 0 0)) (bignumSecAssigns false 1 300000000) (bignumSecAssigns false 2 100000000) ↔
      (bignumSecAssigns false 1 300000000).SubOk (bignumSecAssigns false 2 100000000) :=
  sub_exact_iff _ _ _ (by decide) (by decide) (by decide)

/-- Equal numbers, fractions that add up to a second, and zeros of different signs -/
theorem not_sub_exact :
    bignumSecSub (bignumSecAssigns true 1 0) (bignumSecAssigns true 1 0) (bignumSecAssigns true 0 0) = none ∧
    ¬GivesSub (bignumSecSub (bignumSecAssigns true 0 500000000) (bignumSecAssigns false 0 500000000)
      (bignumSecAssigns true 0 0)) (bignumSecAssigns true 0 500000000) (bignumSecAssigns false 0 500000000) ∧
    ¬GivesSub (bignumSecSub (bignumSecAssigns false 0 0) (bignumSecAssigns true 0 0)
      (bignumSecAssigns true 0 0)) (bignumSecAssigns false 0 0) (bignumSecAssigns true 0 0) := by
  decide

/-! ### Comparisons -/

/-- Zero is carried as positive. -/
def PositiveZero (a : BignumSec) : Prop := a.value = 0 → a.positive = true

instance (a : BignumSec) : Decidable a.PositiveZero := inferInstanceAs (Decidable (_ → _))

theorem PositiveZero.sameZero (ha : a.PositiveZero) (hb : b.PositiveZero) : a.SameZero b :=
  fun hazero hbzero => (ha hazero).trans (hb hbzero).symm

theorem equal_iff_value (ha : a.Normal) (hb : b.Normal) (hzero : a.SameZero b) :
    bignumSecEqual a b = true ↔ a.value = b.value := by
  rw [equal_iff]
  constructor
  · intro h
    rw [h]
  · intro h
    refine eq_of_value_eq ha hb h ?_
    by_cases h0 : a.value = 0
    · exact hzero h0 (h ▸ h0)
    · exact positive_eq_of_value_eq h h0

/-- The comparisons are the order of the values. -/
theorem comparisons_order (a b : BignumSec) (ha : a.Normal) (hb : b.Normal) (hazero : a.PositiveZero)
    (hbzero : b.PositiveZero) :
    (bignumSecLessThan a b = true ↔ a.value < b.value) ∧ (bignumSecGreaterThan a b = true ↔ b.value < a.value) ∧
      (bignumSecEqual a b = true ↔ a.value = b.value) ∧
      [bignumSecLessThan a b, bignumSecGreaterThan a b, bignumSecEqual a b].count true = 1 ∧
      bignumSecGreaterThan a b = bignumSecLessThan b a := by
  have hlt := lessThan_iff ha hb (hazero.sameZero hbzero)
  have hgt := greaterThan_iff ha hb (hazero.sameZero hbzero)
  have heq := equal_iff_value ha hb (hazero.sameZero hbzero)
  have hlt' := lessThan_iff hb ha (hbzero.sameZero hazero)
  refine ⟨hlt, hgt, heq, ?_, Bool.eq_iff_iff.2 (hgt.trans hlt'.symm)⟩
  rw [Bool.eq_iff_iff.2 (hlt.trans decide_eq_true_iff.symm), Bool.eq_iff_iff.2 (hgt.trans decide_eq_true_iff.symm),
    Bool.eq_iff_iff.2 (heq.trans decide_eq_true_iff.symm)]
  rcases lt_trichotomy a.value b.value with h | h | h
  · simp [h, not_lt_of_gt h, ne_of_lt h]
  · simp [h]
  · simp [h, not_lt_of_gt h, ne_of_gt h]

theorem comparisons_order_negative :
    (bignumSecLessThan (bignumSecAssigns false 1 7) (bignumSecAssigns false 1 3) = true ↔ (-1000000007 : Int) < -1000000003) ∧
      bignumSecGreaterThan (bignumSecAssigns false 1 7) (bignumSecAssigns false 1 3) =
        bignumSecLessThan (bignumSecAssigns false 1 3) (bignumSecAssigns false 1 7) :=
  have h := comparisons_order (bignumSecAssigns false 1 7) (bignumSecAssigns false 1 3) (by decide) (by decide)
    (by decide) (by decide)
  ⟨h.1, h.2.2.2.2⟩

/-! ### Division -/

/-- The variable `remainder` -/
def divsRemainder (a : BignumSec) (b : UInt32) : UInt64 := a.sec % b.toUInt64

/-- `c->nsec` before the carry is taken from it -/
def divsNsec (a : BignumSec) (b : UInt32) : UInt64 := (a.divsRemainder b * 1000000000 + a.nsec) / b.toUInt64

/-- The variable `carry` -/
def divsCarry (a : BignumSec) (b : UInt32) : UInt64 := a.divsNsec b / 1000000000

/-- Every operation on 64 bits has the result that it has on numbers. -/
structure DivsNoWrap (a : BignumSec) (b : UInt32) : Prop where
  product : (a.divsRemainder b * 1000000000).toNat = (a.divsRemainder b).toNat * 1000000000
  sum : (a.divsRemainder b * 1000000000 + a.nsec).toNat = (a.divsRemainder b * 1000000000).toNat + a.nsec.toNat
  sec : (a.sec / b.toUInt64 + a.divsCarry b).toNat = (a.sec / b.toUInt64).toNat + (a.divsCarry b).toNat
  carry : (a.divsCarry b * 1000000000).toNat = (a.divsCarry b).toNat * 1000000000
  nsec : (a.divsCarry b * 1000000000).toNat ≤ (a.divsNsec b).toNat

theorem divsUnsigned_eq {n : UInt32} (hn : n ≠ 0) :
    bignumSecDivsUnsigned a n c =
      some { c with sec := a.sec / n.toUInt64 + a.divsCarry n, nsec := a.divsNsec n - a.divsCarry n * 1000000000 } :=
  if_neg hn

variable {n : UInt32}

theorem toNat_pos (hn : n ≠ 0) : 0 < n.toNat := Nat.pos_of_ne_zero fun h => hn (UInt32.toNat_inj.1 h)

theorem divsRemainder_lt (hn : n ≠ 0) : (a.divsRemainder n).toNat < n.toNat := by
  rw [divsRemainder, UInt64.toNat_mod, UInt32.toNat_toUInt64]
  exact Nat.mod_lt _ (toNat_pos hn)

theorem divsNsec_lt (hn : n ≠ 0) (ha : a.Normal) : (a.divsNsec n).toNat < 1000000000 := by
  have hrem : a.sec.toNat % n.toNat < n.toNat := Nat.mod_lt _ (toNat_pos hn)
  rw [divsNsec, divsRemainder, divs_nsec_toNat (toNat_pos hn) (Nat.le_of_lt ha)]
  unfold Normal at ha
  refine Nat.div_lt_of_lt_mul ?_
  omega

theorem divsCarry_eq_zero (hn : n ≠ 0) (ha : a.Normal) : a.divsCarry n = 0 := by
  have hbillion : (1000000000 : UInt64).toNat = 1000000000 := rfl
  rw [← UInt64.toNat_inj, divsCarry, UInt64.toNat_div, hbillion]
  exact Nat.div_eq_of_lt (divsNsec_lt hn ha)

theorem divsNoWrap (hn : n ≠ 0) (ha : a.Normal) : a.DivsNoWrap n := by
  have hrem := divsRemainder_lt (a := a) hn
  have hn32 := n.toNat_lt
  have hbillion : (1000000000 : UInt64).toNat = 1000000000 := rfl
  have hcarry := divsCarry_eq_zero hn ha
  have hproduct : (a.divsRemainder n * 1000000000).toNat = (a.divsRemainder n).toNat * 1000000000 := by
    rw [UInt64.toNat_mul, hbillion]
    omega
  unfold Normal at ha
  constructor
  · exact hproduct
  · rw [UInt64.toNat_add, hproduct]
    omega
  · rw [hcarry, UInt64.add_zero]
    rfl
  · rw [hcarry, UInt64.zero_mul]
    rfl
  · rw [hcarry, UInt64.zero_mul]
    exact Nat.zero_le _

/-- `bignum_sec_divs` is exact truncating division. -/
theorem divs_exact (a c : BignumSec) (b : UInt32) (ha : a.Normal) (hb : b ≠ 0) :
    a.DivsNoWrap b ∧
      ∃ r, bignumSecDivs a b c = some r ∧ r.Normal ∧ r.positive = a.positive ∧ r.mag = a.mag / b.toNat := by
  refine ⟨divsNoWrap hb ha, ?_⟩
  have hfits : a.mag < 2 ^ 64 * 1000000000 := by
    have hsec := a.sec.toNat_lt
    unfold Normal at ha
    unfold mag
    omega
  obtain ⟨r, hr, hpos, hmag⟩ := divsUnsigned_mag (c := { c with positive := a.positive }) hb (Nat.le_of_lt ha) hfits
  refine ⟨r, hr, ?_, hpos, hmag⟩
  rw [divsUnsigned_eq hb, Option.some.injEq] at hr
  have hnsec : r.nsec = a.divsNsec b := by
    rw [← hr, divsCarry_eq_zero hb ha, UInt64.zero_mul, UInt64.sub_zero]
  rw [Normal, hnsec]
  exact divsNsec_lt hb ha

theorem divs_exact_largest :
    (bignumSecAssigns false 18446744073709551615 999999999).DivsNoWrap 4294967295 ∧
      ∃ r, bignumSecDivs (bignumSecAssigns false 18446744073709551615 999999999) 4294967295
          (bignumSecAssigns true 0 0) = some r ∧ r.Normal ∧ r.positive = false ∧
        r.mag = (bignumSecAssigns false 18446744073709551615 999999999).mag / 4294967295 :=
  divs_exact _ _ 4294967295 (by decide) (by decide)

end BignumSec
end Injector
end WlanxVms
