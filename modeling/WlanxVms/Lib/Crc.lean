import Mathlib.Data.BitVec

/-!
# Reflected cyclic redundancy checks

The register of a reflected check is shifted to the right, and the polynomial is added when a one falls
out. `feed` puts the bits of a message into it, one at a time. A table of the registers that `k` shifts
make of all `k` bit numbers does the same for `k` bits at once (`table_step`), because the shift is linear.
Each shift can be undone (`shifts_eq_iff`), so that a register of message bits takes a register to one value
only (`feed_word`).
-/

namespace WlanxVms
namespace Crc
variable {w k : Nat} {p x y : BitVec w}

def shift (p x : BitVec w) : BitVec w := if x.getLsbD 0 then (x >>> 1) ^^^ p else x >>> 1

def shifts (p : BitVec w) : Nat → BitVec w → BitVec w
  | 0, x => x
  | n + 1, x => shifts p n (shift p x)

def push (p x : BitVec w) (b : Bool) : BitVec w := if x.getLsbD 0 ^^ b then (x >>> 1) ^^^ p else x >>> 1

/-- The bits of a number, least significant first -/
def bits (b : BitVec k) : List Bool := (List.range k).map b.getLsbD

/-- The register after a whole message, bit by bit -/
def feed (p x : BitVec w) (message : List (BitVec k)) : BitVec w := (message.flatMap bits).foldl (push p) x

theorem feed_cons (b : BitVec k) (message : List (BitVec k)) :
    feed p x (b :: message) = feed p ((bits b).foldl (push p) x) message := by
  rw [feed, List.flatMap_cons, List.foldl_append]
  rfl

theorem feed_append (a b : List (BitVec k)) : feed p x (a ++ b) = feed p (feed p x a) b := by
  rw [feed, List.flatMap_append, List.foldl_append]
  rfl

/-! ### The shift is linear -/

theorem shift_xor (p x y : BitVec w) : shift p (x ^^^ y) = shift p x ^^^ shift p y := by
  unfold shift
  rw [BitVec.getLsbD_xor, BitVec.ushiftRight_xor_distrib]
  cases x.getLsbD 0 <;> cases y.getLsbD 0
  · rfl
  · exact BitVec.xor_assoc ..
  · simp only [Bool.xor_false, if_true, Bool.false_eq_true, if_false]
    ac_rfl
  · simp only [Bool.xor_self, if_true, Bool.false_eq_true, if_false]
    rw [BitVec.xor_assoc, ← BitVec.xor_assoc p, BitVec.xor_comm p, BitVec.xor_assoc, BitVec.xor_self, BitVec.xor_zero]

theorem shifts_xor (p : BitVec w) (n : Nat) (x y : BitVec w) : shifts p n (x ^^^ y) = shifts p n x ^^^ shifts p n y := by
  induction n generalizing x y with
  | zero => rfl
  | succ n ih => rw [shifts, shifts, shifts, shift_xor, ih]

theorem shifts_of_low_zero {n : Nat} (h : ∀ i, i < n → x.getLsbD i = false) : shifts p n x = x >>> n := by
  induction n generalizing x with
  | zero => exact (BitVec.ushiftRight_zero x).symm
  | succ n ih =>
    have h0 : shift p x = x >>> 1 := by rw [shift, h 0 (Nat.succ_pos n)]; rfl
    rw [shifts, h0, ih fun i hi => ?_, ← BitVec.shiftRight_add, Nat.add_comm 1 n]
    rw [BitVec.getLsbD_ushiftRight]
    exact h (1 + i) (by omega)

/-- The bits that fall out decide what is added to the others. -/
theorem shifts_split (hk : k ≤ w) (x : BitVec w) :
    shifts p k x = shifts p k ((x.setWidth k).setWidth w) ^^^ (x >>> k) := by
  have hlow : ∀ i, i < w → ((x.setWidth k).setWidth w).getLsbD i = (decide (i < k) && x.getLsbD i) := by
    intro i hi
    simp [hi]
  have hsplit : x = ((x.setWidth k).setWidth w) ^^^ (((x.setWidth k).setWidth w) ^^^ x) := by
    rw [← BitVec.xor_assoc, BitVec.xor_self, BitVec.zero_xor]
  have hhigh : ∀ i, i < k → (((x.setWidth k).setWidth w) ^^^ x).getLsbD i = false := by
    intro i hi
    rw [BitVec.getLsbD_xor, hlow i (by omega), decide_eq_true hi, Bool.true_and, Bool.xor_self]
  have hshift : (((x.setWidth k).setWidth w) ^^^ x) >>> k = x >>> k := by
    refine BitVec.eq_of_getLsbD_eq fun i hi => ?_
    simp only [BitVec.getLsbD_ushiftRight, BitVec.getLsbD_xor]
    by_cases hki : k + i < w
    · rw [hlow (k + i) hki, decide_eq_false (by omega), Bool.false_and, Bool.false_xor]
    · rw [BitVec.getLsbD_of_ge _ _ (by omega), BitVec.getLsbD_of_ge _ _ (by omega)]
      rfl
  conv => lhs; rw [hsplit]
  rw [shifts_xor, shifts_of_low_zero hhigh, hshift]

/-! ### A table for `k` bits -/

theorem shift_push (p x y : BitVec w) : shift p (x ^^^ y) = push p x (y.getLsbD 0) ^^^ (y >>> 1) := by
  unfold shift push
  rw [BitVec.getLsbD_xor, BitVec.ushiftRight_xor_distrib]
  split
  · ac_rfl
  · rfl

theorem foldl_push (p x y : BitVec w) (n : Nat) :
    ((List.range n).map y.getLsbD).foldl (push p) x = shifts p n (x ^^^ y) ^^^ (y >>> n) := by
  induction n generalizing x y with
  | zero =>
    rw [BitVec.ushiftRight_zero]
    show x = x ^^^ y ^^^ y
    rw [BitVec.xor_assoc, BitVec.xor_self, BitVec.xor_zero]
  | succ n ih =>
    have hbits : ∀ i, y.getLsbD (i + 1) = (y >>> 1).getLsbD i := fun i => by
      rw [BitVec.getLsbD_ushiftRight, Nat.add_comm]
    rw [List.range_succ_eq_map, List.map_cons, List.map_map, List.foldl_cons]
    show ((List.range n).map fun i => y.getLsbD (i + 1)).foldl (push p) (push p x (y.getLsbD 0)) = _
    simp only [hbits]
    rw [ih, ← shift_push, ← BitVec.shiftRight_add, Nat.add_comm 1 n]
    rfl

/-- A table of the shifted registers takes the place of `k` single steps. -/
theorem table_step (hk : k ≤ w) (p x : BitVec w) (b : BitVec k) :
    (bits b).foldl (push p) x =
      shifts p k (((x ^^^ b.setWidth w).setWidth k).setWidth w) ^^^ (x >>> k) := by
  have hbits : bits b = (List.range k).map (b.setWidth w).getLsbD := by
    refine List.map_congr_left fun i hi => ?_
    have hlt := List.mem_range.1 hi
    simp [show i < w by omega]
  have hzero : (b.setWidth w) >>> k = 0#w := by
    refine BitVec.eq_of_getLsbD_eq fun i hi => ?_
    simp
  rw [hbits, foldl_push, hzero, BitVec.xor_zero, shifts_split hk, BitVec.ushiftRight_xor_distrib, hzero, BitVec.xor_zero]

/-! ### Undoing shifts -/

/-- The register before a shift, for a polynomial with a leading one -/
def unshift (p y : BitVec w) : BitVec w := if y.msb then ((y ^^^ p) <<< 1) ||| 1#w else y <<< 1

def unshifts (p : BitVec w) : Nat → BitVec w → BitVec w
  | 0, y => y
  | n + 1, y => unshift p (unshifts p n y)

theorem msb_shift (hp : p.msb = true) (x : BitVec w) : (shift p x).msb = x.getLsbD 0 := by
  have hx : (x >>> 1).msb = false := by
    rw [BitVec.msb_eq_getLsbD_last, BitVec.getLsbD_ushiftRight]
    exact BitVec.getLsbD_of_ge _ _ (by omega)
  unfold shift
  cases x.getLsbD 0
  · exact hx
  · rw [if_pos rfl, BitVec.msb_xor, hx, hp]
    rfl

theorem unshift_shift (hp : p.msb = true) (x : BitVec w) : unshift p (shift p x) = x := by
  unfold unshift
  rw [msb_shift hp]
  unfold shift
  cases hx : x.getLsbD 0
  · refine BitVec.eq_of_getLsbD_eq fun i hi => ?_
    rcases i with _ | i
    · simp [hx]
    · simp [hi, Nat.add_comm]
  · simp only [if_true]
    rw [BitVec.xor_assoc, BitVec.xor_self, BitVec.xor_zero]
    refine BitVec.eq_of_getLsbD_eq fun i hi => ?_
    rcases i with _ | i
    · simp [hx, hi]
    · simp [hi, Nat.add_comm]

theorem shift_unshift (hp : p.msb = true) (y : BitVec w) : shift p (unshift p y) = y := by
  have hw : 0 < w := by
    by_contra h0
    obtain rfl : w = 0 := Nat.eq_zero_of_not_pos h0
    rw [BitVec.of_length_zero (x := p)] at hp
    cases hp
  -- a register without a leading one comes back from the shift to the left
  have hback : ∀ z b : BitVec w, z.msb = false → b = 0#w ∨ b = 1#w → ((z <<< 1) ||| b) >>> 1 = z := by
    intro z b hz hb
    refine BitVec.eq_of_getLsbD_eq fun i hi => ?_
    have hb' : b.getLsbD (1 + i) = false := by
      rcases hb with rfl | rfl
      · simp
      · simp
    rw [BitVec.getLsbD_ushiftRight, BitVec.getLsbD_or, hb', Bool.or_false, BitVec.getLsbD_shiftLeft]
    rcases Nat.lt_or_ge (1 + i) w with hlt | hge
    · simp [hlt]
    · have hlast : z.getLsbD i = false := by
        rw [BitVec.msb_eq_getLsbD_last, show w - 1 = i by omega] at hz
        exact hz
      simp [hlast]
  unfold unshift
  cases hy : y.msb
  · have h := hback y 0#w hy (.inl rfl)
    rw [BitVec.or_zero] at h
    have hlow : (y <<< 1).getLsbD 0 = false := by simp
    simp only [Bool.false_eq_true, if_false]
    rw [shift, hlow, h]
    rfl
  · have hxor : (y ^^^ p).msb = false := by rw [BitVec.msb_xor, hy, hp]; rfl
    have hlow : (((y ^^^ p) <<< 1) ||| 1#w).getLsbD 0 = true := by simp [hw]
    simp only [if_true]
    rw [shift, if_pos hlow, hback _ _ hxor (.inr rfl), BitVec.xor_assoc, BitVec.xor_self, BitVec.xor_zero]

theorem shifts_eq_iff (hp : p.msb = true) {n : Nat} : shifts p n x = y ↔ x = unshifts p n y := by
  induction n generalizing x with
  | zero => rfl
  | succ n ih =>
    rw [shifts, ih, unshifts]
    constructor
    · intro h
      rw [← h, unshift_shift hp]
    · intro h
      rw [h, shift_unshift hp]

/-! ### A whole register of message bits -/

theorem feed_word {message : List (BitVec k)} (h : message.flatMap bits = bits y) :
    feed p x message = shifts p w (x ^^^ y) := by
  have hzero : y >>> w = 0#w := by
    refine BitVec.eq_of_getLsbD_eq fun i hi => ?_
    simp
  rw [feed, h, bits, foldl_push, hzero, BitVec.xor_zero]
end Crc
end WlanxVms
