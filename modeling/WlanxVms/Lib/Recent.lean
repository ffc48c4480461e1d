import Mathlib.Data.List.GetD
import WlanxVms.Lib.Mem

/-!
# The last values of a sequence

A table of `n` cells that is written in turn holds the last `n` values of a sequence. `Recent n d m last l`
says that the cells read backwards from `last` on hold the list `l`, newest value first, and the value `d`
where nothing was written yet.
-/

namespace WlanxVms
namespace Recent
variable {β : Type} {m : Mem β} {n last i j : Nat} {d x : β} {l : List β}

/-- The cell that is written after cell `i` -/
def advance (n i : Nat) : Nat := if n ≤ i + 1 then 0 else i + 1

/-- The cell that was written `j` values before cell `last` -/
def back (n last j : Nat) : Nat := if j ≤ last then last - j else last + n - j

end Recent

structure Recent {β : Type} (n : Nat) (d : β) (m : Mem β) (last : Nat) (l : List β) : Prop where
  last_lt : last < n
  cell : ∀ j < n, m (Recent.back n last j) = l.getD j d

namespace Recent
variable {β : Type} {m : Mem β} {n last i j : Nat} {d x : β} {l : List β}

theorem advance_lt (h : last < n) : advance n last < n := by
  unfold advance
  split <;> omega

theorem back_lt (h : last < n) (hj : j < n) : back n last j < n := by
  unfold back
  split <;> omega

theorem back_back (h : last < n) (hi : i < n) : back n last (back n last i) = i := by
  unfold back
  split <;> split <;> omega

theorem back_advance_zero (n last : Nat) : back n (advance n last) 0 = advance n last := if_pos (Nat.zero_le _)

theorem back_advance_succ (h : last < n) (hj : j + 1 < n) : back n (advance n last) (j + 1) = back n last j := by
  unfold back advance
  split_ifs <;> omega

theorem back_ne_advance (h : last < n) (hj : j + 1 < n) : back n last j ≠ advance n last := by
  unfold back advance
  split_ifs <;> omega

theorem init (hn : 0 < n) (h : ∀ i < n, m i = d) : Recent n d m 0 [] :=
  ⟨hn, fun _ hj => h _ (back_lt hn hj)⟩

/-- Writing the next cell forgets the oldest value. -/
theorem push (h : Recent n d m last l) (x : β) : Recent n d (m.set (advance n last) x) (advance n last) (x :: l) := by
  refine ⟨advance_lt h.last_lt, fun j hj => ?_⟩
  rcases j with _ | j
  · rw [back_advance_zero, Mem.set_self]
    rfl
  · rw [back_advance_succ h.last_lt hj, Mem.set_of_ne _ _ (back_ne_advance h.last_lt hj), h.cell j (by omega)]
    rfl

theorem mem_iff (h : Recent n d m last l) : (∃ i < n, m i = x) ↔ x ∈ l.take n ∨ l.length < n ∧ x = d := by
  constructor
  · rintro ⟨i, hi, rfl⟩
    have hcell := h.cell _ (back_lt h.last_lt hi)
    rw [back_back h.last_lt hi] at hcell
    have hj := back_lt h.last_lt hi
    generalize back n last i = j at hcell hj
    rcases Nat.lt_or_ge j l.length with hlt | hge
    · rw [List.getD_eq_getElem _ _ hlt] at hcell
      rw [hcell]
      exact .inl (List.mem_take_iff_getElem.2 ⟨j, by omega, rfl⟩)
    · rw [List.getD_eq_default _ _ hge] at hcell
      exact .inr ⟨by omega, hcell⟩
  · rintro (hmem | ⟨hlt, rfl⟩)
    · obtain ⟨j, hj, rfl⟩ := List.mem_take_iff_getElem.1 hmem
      refine ⟨back n last j, back_lt h.last_lt (by omega), ?_⟩
      rw [h.cell j (by omega), List.getD_eq_getElem _ _ (by omega)]
    · refine ⟨back n last l.length, back_lt h.last_lt hlt, ?_⟩
      rw [h.cell _ hlt, List.getD_eq_default _ _ (Nat.le_refl _)]

end Recent
end WlanxVms
