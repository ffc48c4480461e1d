import Mathlib.Data.List.Perm.Subperm
import Mathlib.Data.List.Nodup

/-!
# Slots of one size, and the loops that search them

A region of `n * m` cells is divided into `n` slots of `m` cells; slot `i` begins at `i * m`. What is put
into different slots does not overlap as long as it fits its slot. `scanUp` and `scanDown` are the loops
that look for a slot from an index on.
-/

namespace WlanxVms

/-- `size` cells from `start` on -/
structure Extent where
  start : Int
  size : Nat
deriving DecidableEq

namespace Extent

def Apart (a b : Extent) : Prop := a.start + a.size ≤ b.start ∨ b.start + b.size ≤ a.start

instance (a b : Extent) : Decidable (a.Apart b) := inferInstanceAs (Decidable (_ ∨ _))

end Extent

/-- Where slot `i` of `m` cells begins -/
def slotStart (m : Nat) (i : Int) : Int := i * m

section
variable {m n i j : Nat}

theorem slotStart_inj (hm : 0 < m) {x y : Int} : slotStart m x = slotStart m y ↔ x = y :=
  Int.mul_eq_mul_right_iff (by omega)

theorem slots_apart (hij : i ≠ j) {a b : Nat} (ha : a ≤ m) (hb : b ≤ m) :
    Extent.Apart ⟨slotStart m i, a⟩ ⟨slotStart m j, b⟩ := by
  -- the smaller index ends first
  have hend : ∀ {i j a : Nat}, i < j → a ≤ m → slotStart m i + a ≤ slotStart m j := by
    intro i j a hlt ha
    have hmul : (i + 1) * m ≤ j * m := Nat.mul_le_mul_right m hlt
    rw [Nat.succ_mul] at hmul
    simp only [slotStart]
    exact_mod_cast Nat.le_trans (Nat.add_le_add_left ha _) hmul
  rcases Nat.lt_or_gt_of_ne hij with hlt | hlt
  · exact .inl (hend hlt ha)
  · exact .inr (hend hlt hb)

theorem length_lt_iff_exists_free {l : List Nat} (hnodup : l.Nodup) (hlt : ∀ i ∈ l, i < n) :
    l.length < n ↔ ∃ i < n, i ∉ l := by
  constructor
  · intro hlen
    by_contra hall
    push Not at hall
    have hsub : List.range n ⊆ l := fun i hi => hall i (List.mem_range.1 hi)
    have hle := (List.nodup_range.subperm hsub).length_le
    rw [List.length_range] at hle
    omega
  · rintro ⟨i, hi, hfree⟩
    have hsub : i :: l ⊆ List.range n := by
      intro j hj
      rcases List.mem_cons.1 hj with rfl | hj
      · exact List.mem_range.2 hi
      · exact List.mem_range.2 (hlt j hj)
    have hle := ((List.nodup_cons.2 ⟨hfree, hnodup⟩).subperm hsub).length_le
    rwa [List.length_range, List.length_cons] at hle

end

/-- At most `n` rounds of `for (; used[i]; i++)` -/
def scanUp (used : Nat → Bool) : Nat → Nat → Nat
  | 0, i => i
  | n + 1, i => if used i then scanUp used n (i + 1) else i

/-- `for (; cond(i); i--)`; `none` when that takes more than `fuel` rounds. -/
def scanDown (cond : Int → Bool) : Nat → Int → Option Int
  | 0, _ => none
  | fuel + 1, i => if cond i then scanDown cond fuel (i - 1) else some i

/-- The indices at which `scanDown` evaluates its condition -/
def scanDownTests (cond : Int → Bool) : Nat → Int → List Int
  | 0, _ => []
  | fuel + 1, i => i :: if cond i then scanDownTests cond fuel (i - 1) else []

section
variable {used : Nat → Bool} {n i : Nat} {cond : Int → Bool}

theorem scanUp_used {k : Nat} (h : i ≤ k) (hk : k < scanUp used n i) : used k = true := by
  induction n generalizing i with
  | zero => exact absurd hk (Nat.not_lt.2 h)
  | succ n ih =>
    unfold scanUp at hk
    split at hk
    · next hi =>
      rcases Nat.eq_or_lt_of_le h with rfl | hlt
      · exact hi
      · exact ih hlt hk
    · exact absurd hk (Nat.not_lt.2 h)

theorem scanUp_free (h : scanUp used n i < i + n) : used (scanUp used n i) = false := by
  induction n generalizing i with
  | zero => exact absurd h (Nat.lt_irrefl i)
  | succ n ih =>
    unfold scanUp at h ⊢
    split
    · next hi =>
      rw [if_pos hi] at h
      exact ih (by omega)
    · next hi => exact Bool.eq_false_iff.2 hi

/-- The loop stops at the first index, going down, that fails its condition. -/
theorem scanDown_eq {fuel : Nat} {i k : Int} (hk : cond k = false) (hle : k ≤ i) (hlt : ∀ j, k < j → j ≤ i → cond j = true)
    (hfuel : i - k < fuel) : scanDown cond fuel i = some k := by
  induction fuel generalizing i with
  | zero => omega
  | succ fuel ih =>
    unfold scanDown
    rcases Int.lt_or_eq_of_le hle with hlt' | rfl
    · rw [if_pos (hlt i hlt' (Int.le_refl i))]
      exact ih (by omega) (fun j hj hji => hlt j hj (by omega)) (by omega)
    · rw [hk]
      rfl

theorem scanDown_false {fuel : Nat} {i k : Int} (h : scanDown cond fuel i = some k) : cond k = false := by
  induction fuel generalizing i with
  | zero => cases h
  | succ fuel ih =>
    unfold scanDown at h
    split at h
    · exact ih h
    · next hi =>
      cases h
      exact Bool.eq_false_iff.2 hi

theorem le_of_mem_tests {fuel : Nat} {i j : Int} (h : j ∈ scanDownTests cond fuel i) : j ≤ i := by
  induction fuel generalizing i with
  | zero => cases h
  | succ fuel ih =>
    rcases List.mem_cons.1 h with rfl | h
    · exact Int.le_refl j
    · split at h
      · have := ih h
        omega
      · cases h

theorem ge_of_mem_tests {fuel : Nat} {i j k : Int} (hk : cond k = false) (hle : k ≤ i)
    (h : j ∈ scanDownTests cond fuel i) : k ≤ j := by
  induction fuel generalizing i with
  | zero => cases h
  | succ fuel ih =>
    rcases List.mem_cons.1 h with rfl | h
    · exact hle
    · split at h
      · next hi =>
        have hne : k ≠ i := by
          rintro rfl
          rw [hk] at hi
          cases hi
        exact ih (by omega) h
      · cases h

theorem mem_tests {fuel : Nat} {i k : Int} (hle : k ≤ i) (hlt : ∀ j, k < j → j ≤ i → cond j = true) (hfuel : i - k < fuel) :
    k ∈ scanDownTests cond fuel i := by
  induction fuel generalizing i with
  | zero => omega
  | succ fuel ih =>
    rcases Int.lt_or_eq_of_le hle with hlt' | rfl
    · rw [scanDownTests, if_pos (hlt i hlt' (Int.le_refl i))]
      exact List.mem_cons_of_mem _ (ih (by omega) (fun j hj hji => hlt j hj (by omega)) (by omega))
    · exact List.mem_cons_self

end
end WlanxVms
