import Mathlib.Data.List.Basic
import Mathlib.Data.List.TakeDrop

/-!
# Frames in a byte stream

A stream is the concatenation of a list of frames. After its first `n` symbols have arrived,
`completed fs n` are the frames that arrived whole, `pending fs n` the others and `leftover fs n`
the number of symbols of the first pending frame that are already there. `headed h fs n` are the
frames whose first `h` symbols (a header that tells the frame's length) have arrived.
-/

namespace WlanxVms
namespace Framing
variable {β : Type}

def completed : List (List β) → Nat → List (List β)
  | [], _ => []
  | f :: fs, n => if f.length ≤ n then f :: completed fs (n - f.length) else []

def pending : List (List β) → Nat → List (List β)
  | [], _ => []
  | f :: fs, n => if f.length ≤ n then pending fs (n - f.length) else f :: fs

def leftover : List (List β) → Nat → Nat
  | [], n => n
  | f :: fs, n => if f.length ≤ n then leftover fs (n - f.length) else n

def headed (h : Nat) : List (List β) → Nat → List (List β)
  | [], _ => []
  | f :: fs, n => if h ≤ n then f :: (if f.length ≤ n then headed h fs (n - f.length) else []) else []

variable {f : List β} {fs : List (List β)} {n : Nat}

theorem completed_of_le (h : f.length ≤ n) :
    completed (f :: fs) n = f :: completed fs (n - f.length) := if_pos h

theorem completed_of_lt (h : n < f.length) : completed (f :: fs) n = [] := if_neg (Nat.not_le.2 h)

theorem pending_of_le (h : f.length ≤ n) : pending (f :: fs) n = pending fs (n - f.length) := if_pos h

theorem pending_of_lt (h : n < f.length) : pending (f :: fs) n = f :: fs := if_neg (Nat.not_le.2 h)

theorem leftover_of_le (h : f.length ≤ n) : leftover (f :: fs) n = leftover fs (n - f.length) := if_pos h

theorem leftover_of_lt (h : n < f.length) : leftover (f :: fs) n = n := if_neg (Nat.not_le.2 h)

theorem completed_append_pending (fs : List (List β)) (n : Nat) :
    completed fs n ++ pending fs n = fs := by
  induction fs generalizing n with
  | nil => rfl
  | cons f fs ih =>
    rcases Nat.lt_or_ge n f.length with h | h
    · rw [completed_of_lt h, pending_of_lt h]; rfl
    · rw [completed_of_le h, pending_of_le h, List.cons_append, ih]

theorem length_flatten_completed (fs : List (List β)) (n : Nat) :
    (completed fs n).flatten.length + leftover fs n = n := by
  induction fs generalizing n with
  | nil => simp [completed, leftover]
  | cons f fs ih =>
    rcases Nat.lt_or_ge n f.length with h | h
    · simp [completed_of_lt h, leftover_of_lt h]
    · rw [completed_of_le h, leftover_of_le h, List.flatten_cons, List.length_append]
      have := ih (n - f.length)
      omega

theorem leftover_lt_of_pending {g : List β} {gs : List (List β)} (h : pending fs n = g :: gs) :
    leftover fs n < g.length := by
  induction fs generalizing n with
  | nil => simp [pending] at h
  | cons f fs ih =>
    rcases Nat.lt_or_ge n f.length with hn | hn
    · rw [pending_of_lt hn] at h
      rw [leftover_of_lt hn]
      cases h; exact hn
    · rw [pending_of_le hn] at h
      rw [leftover_of_le hn]; exact ih h

/-- Symbols that arrive later complete frames of the pending ones. -/
theorem completed_add (fs : List (List β)) (n k : Nat) :
    completed fs (n + k) = completed fs n ++ completed (pending fs n) (leftover fs n + k) := by
  induction fs generalizing n with
  | nil => simp [completed, pending]
  | cons f fs ih =>
    rcases Nat.lt_or_ge n f.length with h | h
    · rw [completed_of_lt h, pending_of_lt h, leftover_of_lt h, List.nil_append]
    · rw [completed_of_le h, pending_of_le h, leftover_of_le h, completed_of_le (Nat.le_add_right_of_le h),
        List.cons_append, ← ih]
      congr 2; omega

theorem pending_add (fs : List (List β)) (n k : Nat) :
    pending fs (n + k) = pending (pending fs n) (leftover fs n + k) := by
  induction fs generalizing n with
  | nil => rfl
  | cons f fs ih =>
    rcases Nat.lt_or_ge n f.length with h | h
    · rw [pending_of_lt h, leftover_of_lt h]
    · rw [pending_of_le h, leftover_of_le h, pending_of_le (Nat.le_add_right_of_le h), ← ih]
      congr 1; omega

theorem leftover_add (fs : List (List β)) (n k : Nat) :
    leftover fs (n + k) = leftover (pending fs n) (leftover fs n + k) := by
  induction fs generalizing n with
  | nil => rfl
  | cons f fs ih =>
    rcases Nat.lt_or_ge n f.length with h | h
    · rw [pending_of_lt h, leftover_of_lt h]
    · rw [pending_of_le h, leftover_of_le h, leftover_of_le (Nat.le_add_right_of_le h), ← ih]
      congr 1; omega

theorem flatten_pending (fs : List (List β)) (n : Nat) :
    (pending fs n).flatten = fs.flatten.drop (completed fs n).flatten.length := by
  have h := congrArg List.flatten (completed_append_pending fs n)
  rw [List.flatten_append] at h
  rw [← h, List.drop_left]

theorem length_flatten_pending (fs : List (List β)) (n : Nat) :
    (completed fs n).flatten.length + (pending fs n).flatten.length = fs.flatten.length := by
  have h := congrArg List.flatten (completed_append_pending fs n)
  rw [List.flatten_append] at h
  rw [← h, List.length_append]

theorem leftover_le_flatten_pending (hn : n ≤ fs.flatten.length) :
    leftover fs n ≤ (pending fs n).flatten.length := by
  have h₁ := length_flatten_completed fs n
  have h₂ := length_flatten_pending fs n
  omega

theorem of_arrived (xs : List (List β)) {ps : List (List β)} {r : Nat} (hr : ∀ p ∈ ps.head?, r < p.length) :
    completed (xs ++ ps) (xs.flatten.length + r) = xs ∧ pending (xs ++ ps) (xs.flatten.length + r) = ps ∧
      leftover (xs ++ ps) (xs.flatten.length + r) = r := by
  induction xs with
  | nil =>
    rw [List.nil_append, List.flatten_nil, List.length_nil, Nat.zero_add]
    cases ps with
    | nil => exact ⟨rfl, rfl, rfl⟩
    | cons p ps =>
      have hlt := hr p rfl
      exact ⟨completed_of_lt hlt, pending_of_lt hlt, leftover_of_lt hlt⟩
  | cons x xs ih =>
    obtain ⟨hc, hp, hl⟩ := ih
    have hle : x.length ≤ (x :: xs).flatten.length + r := by
      rw [List.flatten_cons, List.length_append]; omega
    have hsub : (x :: xs).flatten.length + r - x.length = xs.flatten.length + r := by
      rw [List.flatten_cons, List.length_append]; omega
    rw [List.cons_append, completed_of_le hle, pending_of_le hle, leftover_of_le hle, hsub]
    exact ⟨congrArg _ hc, hp, hl⟩

theorem prefix_of_length_flatten_le {xs ys : List (List β)} (hx : xs <+: fs) (hy : ys <+: fs) (hne : ∀ f ∈ fs, f ≠ [])
    (h : xs.flatten.length ≤ ys.flatten.length) : xs <+: ys := by
  rcases List.prefix_or_prefix_of_prefix hx hy with hpre | ⟨zs, rfl⟩
  · exact hpre
  · cases zs with
    | nil => exact ⟨[], List.append_nil _ ▸ List.append_nil _⟩
    | cons z zs =>
      have hz : 0 < z.length := List.length_pos_iff.2 (hne z (hx.subset (List.mem_append_right _ List.mem_cons_self)))
      rw [List.flatten_append, List.flatten_cons, List.length_append, List.length_append] at h
      omega

theorem mem_headed_cons {h : Nat} (hn : h ≤ n) : f ∈ headed h (f :: fs) n := by
  rw [headed, if_pos hn]
  exact List.mem_cons_self

theorem mem_headed_tail {h : Nat} {g : List β} (hn : h ≤ n) (hf : f.length ≤ n) (hg : g ∈ headed h fs (n - f.length)) :
    g ∈ headed h (f :: fs) n := by
  rw [headed, if_pos hn, if_pos hf]
  exact List.mem_cons_of_mem _ hg

end Framing
end WlanxVms
