import Mathlib.Data.List.Nodup
import Mathlib.Logic.Function.Basic

/-!
# Singly linked lists

`Linked next p l` says that from the pointer `p` the links lead through the cells `l` and then to the null
pointer. Such a list comes to no cell twice, and changes of other cells leave it alone.
-/

namespace WlanxVms

def Linked {α : Type} (next : α → Option α) : Option α → List α → Prop
  | p, [] => p = none
  | p, a :: l => p = some a ∧ Linked next (next a) l

namespace Linked
variable {α : Type} {next next' : α → Option α} {p : Option α} {a b : α} {l l' : List α}

theorem unique (h : Linked next p l) (h' : Linked next p l') : l = l' := by
  induction l generalizing p l' with
  | nil =>
    cases l' with
    | nil => rfl
    | cons b l' => cases (show p = none from h).symm.trans h'.1
  | cons a l ih =>
    cases l' with
    | nil => cases (show p = none from h').symm.trans h.1
    | cons b l' =>
      obtain rfl : a = b := Option.some.inj (h.1.symm.trans h'.1)
      rw [ih h.2 h'.2]

theorem congr (heq : ∀ a ∈ l, next' a = next a) (h : Linked next p l) : Linked next' p l := by
  induction l generalizing p with
  | nil => exact h
  | cons a l ih =>
    refine ⟨h.1, ?_⟩
    rw [heq a List.mem_cons_self]
    exact ih (fun b hb => heq b (List.mem_cons_of_mem a hb)) h.2

theorem suffix {l₁ : List α} (h : Linked next p (l₁ ++ a :: l)) : Linked next (some a) (a :: l) := by
  induction l₁ generalizing p with
  | nil => exact ⟨rfl, h.2⟩
  | cons b l₁ ih => exact ih h.2

/-- A cell that came twice would be followed by two lists. -/
theorem nodup (h : Linked next p l) : l.Nodup := by
  induction l generalizing p with
  | nil => exact List.nodup_nil
  | cons a l ih =>
    refine List.nodup_cons.2 ⟨fun hmem => ?_, ih h.2⟩
    obtain ⟨l₁, l₂, rfl⟩ := List.append_of_mem hmem
    have hsuffix : Linked next (next a) l₂ := (suffix h.2).2
    have hlen := congrArg List.length (hsuffix.unique h.2)
    rw [List.length_append, List.length_cons] at hlen
    omega

theorem concat [DecidableEq α] (h : Linked next p (l ++ [a])) (hb : b ∉ l ++ [a]) :
    Linked (Function.update (Function.update next a (some b)) b none) p (l ++ [a] ++ [b]) := by
  have hnodup := h.nodup
  induction l generalizing p with
  | nil =>
    have hne : a ≠ b := by
      rintro rfl
      exact hb List.mem_cons_self
    refine ⟨h.1, ?_, ?_⟩
    · rw [Function.update_of_ne hne, Function.update_self]
    · exact Function.update_self ..
  | cons c l ih =>
    obtain ⟨hc, hnodup⟩ := List.nodup_cons.1 hnodup
    have hca : c ≠ a := by
      rintro rfl
      exact hc (List.mem_append_right l List.mem_cons_self)
    have hcb : c ≠ b := by
      rintro rfl
      exact hb List.mem_cons_self
    refine ⟨h.1, ?_⟩
    rw [Function.update_of_ne hcb, Function.update_of_ne hca]
    exact ih h.2 (fun hmem => hb (List.mem_cons_of_mem c hmem)) hnodup

end Linked
end WlanxVms
