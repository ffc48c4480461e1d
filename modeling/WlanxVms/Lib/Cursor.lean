import Mathlib.Data.List.Basic
import Mathlib.Order.Basic

/-!
# Walking a list that changes between the calls

A walk over a list is cut into calls: each goes on from the cursor that the last one left, takes what `p`
selects until it has no room, and leaves the cursor behind the last key that it took. The list may change
between two calls. A call takes keys from the old cursor to the new one only, each once (`Takes`), so no key
is taken twice. It passes over an element that stands behind a greater key, and over no other
(`walk_front`).
-/

namespace WlanxVms
namespace Cursor
variable {α : Type} {key : α → Int} {p : α → Bool} {xs out : List α} {c c' : Int}

/-- One call: what it takes, and the cursor after it -/
def walk (key : α → Int) (p : α → Bool) : Nat → List α → Int → List α × Int
  | _, [], c => ([], c)
  | room, x :: xs, c =>
    if key x < c then walk key p room xs c
    else if p x then
      match room with
      | 0 => ([], c)
      | room + 1 => (x :: (walk key p room xs (key x + 1)).1, (walk key p room xs (key x + 1)).2)
    else walk key p room xs c

/-- A call that moves the cursor from `c` to `c'` takes `out`. -/
structure Takes (key : α → Int) (p : α → Bool) (xs : List α) (c : Int) (out : List α) (c' : Int) : Prop where
  le : c ≤ c'
  sorted : out.Pairwise fun x y => key x < key y
  keys : ∀ x ∈ out, c ≤ key x ∧ key x < c'
  mem : ∀ x ∈ out, x ∈ xs ∧ p x = true

theorem Takes.nil (c : Int) : Takes key p xs c [] c := ⟨Int.le_refl c, .nil, nofun, nofun⟩

theorem Takes.skip (h : Takes key p xs c out c') (x : α) : Takes key p (x :: xs) c out c' :=
  ⟨h.le, h.sorted, h.keys, fun y hy => ⟨List.mem_cons_of_mem _ (h.mem y hy).1, (h.mem y hy).2⟩⟩

/-- What a call takes lies between the two cursors. -/
theorem walk_takes (key : α → Int) (p : α → Bool) (room : Nat) (xs : List α) (c : Int) :
    Takes key p xs c (walk key p room xs c).1 (walk key p room xs c).2 := by
  induction xs generalizing room c with
  | nil => exact .nil c
  | cons x xs ih =>
    unfold walk
    split
    · exact (ih room c).skip x
    · next hge =>
      split
      · next hp =>
        cases room with
        | zero => exact .nil c
        | succ room =>
          have h := ih room (key x + 1)
          have hle := h.le
          simp only
          refine ⟨by omega, ?_, ?_, ?_⟩
          · exact List.pairwise_cons.2 ⟨fun y hy => by have := (h.keys y hy).1; omega, h.sorted⟩
          · refine List.forall_mem_cons.2 ⟨⟨by omega, by omega⟩, fun y hy => ?_⟩
            have := h.keys y hy
            exact ⟨by omega, this.2⟩
          · refine List.forall_mem_cons.2 ⟨⟨List.mem_cons_self, hp⟩, fun y hy => ?_⟩
            exact ⟨List.mem_cons_of_mem _ (h.mem y hy).1, (h.mem y hy).2⟩
      · exact (ih room c).skip x

/-- Behind smaller keys only, an element that the cursor passes is taken, and a call with room left passes it. -/
theorem walk_front {before after : List α} {x : α} (hbefore : ∀ y ∈ before, key y < key x) (hx : p x = true)
    (room : Nat) (c : Int) :
    let (out, c') := walk key p room (before ++ x :: after) c
    (c ≤ key x → key x < c' → x ∈ out) ∧ (out.length < room → key x < c') := by
  induction before generalizing room c with
  | nil =>
    simp only [List.nil_append, walk]
    split
    · next hlt =>
      have hle := (walk_takes key p room after c).le
      exact ⟨fun hge => absurd hlt (Int.not_lt.2 hge), fun _ => by omega⟩
    · next hge =>
      cases room with
      | zero => exact ⟨fun hle hlt => absurd hlt (Int.not_lt.2 hle), fun h0 => absurd h0 (Nat.not_lt_zero _)⟩
      | succ room =>
        have hle := (walk_takes key p room after (key x + 1)).le
        exact ⟨fun _ _ => List.mem_cons_self, fun _ => by simp only; omega⟩
  | cons y before ih =>
    obtain ⟨hy, hbefore⟩ := List.forall_mem_cons.1 hbefore
    have ih := ih hbefore
    simp only [List.cons_append, walk]
    split
    · exact ih room c
    · next hge =>
      split
      · cases room with
        | zero => exact ⟨fun hle hlt => absurd hlt (Int.not_lt.2 hle), fun h0 => absurd h0 (Nat.not_lt_zero _)⟩
        | succ room =>
          obtain ⟨htaken, hpassed⟩ := ih room (key y + 1)
          exact ⟨fun _ hlt => List.mem_cons_of_mem _ (htaken (by omega) hlt),
            fun hroom => hpassed (Nat.lt_of_succ_lt_succ hroom)⟩
      · exact ih room c

/-! ### The calls together -/

/-- What the calls so far took, as keys: each once, in order, and all before the cursor -/
structure Taken (c : Int) (keys : List Int) : Prop where
  sorted : keys.Pairwise (· < ·)
  before : ∀ k ∈ keys, k < c

theorem Taken.nil (c : Int) : Taken c [] := ⟨.nil, nofun⟩

theorem Taken.takes {keys : List Int} (h : Taken c keys) (ht : Takes key p xs c out c') :
    Taken c' (keys ++ out.map key) := by
  have hle := ht.le
  refine ⟨List.pairwise_append.2 ⟨h.sorted, List.pairwise_map.2 ht.sorted, fun k hk k' hk' => ?_⟩, ?_⟩
  · obtain ⟨x, hx, rfl⟩ := List.mem_map.1 hk'
    exact Int.lt_of_lt_of_le (h.before k hk) (ht.keys x hx).1
  · refine List.forall_mem_append.2 ⟨fun k hk => Int.lt_of_lt_of_le (h.before k hk) hle, ?_⟩
    exact List.forall_mem_map.2 fun x hx => (ht.keys x hx).2

end Cursor
end WlanxVms
