import WlanxVms.Lib.Mem
import Mathlib.Data.Nat.ModEq

/-!
# Ring buffers

A ring of `n` slots in a block `m`: `Ring.Holds m n head xs` says that the slots from `head` on,
counted modulo `n`, hold the list `xs`. The lemmas are the ones a queue over a ring needs: drop the
head, write the first free slot, and take that slot into the list.
-/

namespace WlanxVms
namespace Ring
variable {α : Type} {m : Mem α} {n head i j : Nat} {x : α} {xs : List α}

/-- The successor of a slot, as an increment with wrap-around computes it. -/
def next (n i : Nat) : Nat := if i + 1 = n then 0 else i + 1

theorem next_lt (h : i < n) : next n i < n := by
  unfold next; split <;> omega

theorem next_eq_mod (h : i < n) : next n i = (i + 1) % n := by
  unfold next; split
  · next h' => rw [h', Nat.mod_self]
  · exact (Nat.mod_eq_of_lt (by omega)).symm

theorem next_add_mod (h : head < n) (k : Nat) : (next n head + k) % n = (head + (k + 1)) % n := by
  rw [next_eq_mod h, Nat.mod_add_mod]; congr 1; omega

theorem next_mod (hn : 0 < n) : next n ((head + i) % n) = (head + (i + 1)) % n := by
  rw [next_eq_mod (Nat.mod_lt _ hn), Nat.mod_add_mod, Nat.add_assoc]

theorem offset_inj (hi : i < n) (hj : j < n) (h : (head + i) % n = (head + j) % n) : i = j := by
  have hmod : i % n = j % n := Nat.ModEq.add_left_cancel' head h
  rwa [Nat.mod_eq_of_lt hi, Nat.mod_eq_of_lt hj] at hmod

theorem offset_eq_zero (hh : head < n) (hi : i < n) (h : (head + i) % n = head) : i = 0 := by
  have : (head + i) % n = (head + 0) % n := by rw [h, Nat.add_zero, Nat.mod_eq_of_lt hh]
  exact offset_inj hi (Nat.zero_lt_of_lt hi) this

/-- The slots from `head` on hold `xs`. -/
def Holds (m : Mem α) (n head : Nat) (xs : List α) : Prop :=
  ∀ i (h : i < xs.length), m ((head + i) % n) = xs[i]

namespace Holds

theorem nil : Holds m n head [] := fun _ h => absurd h (Nat.not_lt_zero _)

theorem head_eq (h : Holds m n head (x :: xs)) (hh : head < n) : m head = x := by
  have := h 0 (by simp)
  simpa [Nat.mod_eq_of_lt hh] using this

theorem tail (h : Holds m n head (x :: xs)) (hh : head < n) : Holds m n (next n head) xs := by
  intro i hi
  rw [next_add_mod hh]
  exact h (i + 1) (by simpa using hi)

theorem push (h : Holds m n head xs) (hx : m ((head + xs.length) % n) = x) :
    Holds m n head (xs ++ [x]) := by
  intro i hi
  rcases Nat.lt_or_ge i xs.length with hlt | hge
  · rw [List.getElem_append_left hlt]; exact h i hlt
  · have hie : i = xs.length := by simp at hi; omega
    subst hie
    simpa using hx

theorem set_free (h : Holds m n head xs) (hlen : xs.length < n) (v : α) :
    Holds (m.set ((head + xs.length) % n) v) n head xs := by
  intro i hi
  have hne : (head + i) % n ≠ (head + xs.length) % n := fun he =>
    absurd (offset_inj (by omega) hlen he) (Nat.ne_of_lt hi)
  rw [Mem.set_of_ne _ _ hne]
  exact h i hi

end Holds
end Ring
end WlanxVms
