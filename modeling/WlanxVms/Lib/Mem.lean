import Mathlib.Data.List.Basic
import Mathlib.Data.List.TakeDrop

/-!
# Flat memory blocks

An array of the program is a block `Mem β`, one cell for each index; how many cells the program
may use is stated where it matters. `read` and `write` are the block transfers (`memcpy`, `recv`
into a buffer), `set` is one assignment, `copyDown` the loop that moves a tail of the block to its
front.
-/

namespace WlanxVms

def Mem (β : Type) : Type := Nat → β

namespace Mem
variable {β : Type}

def fill (b : β) : Mem β := fun _ => b

def set (m : Mem β) (i : Nat) (b : β) : Mem β := fun j => if j = i then b else m j

/-- The cells `off, …, off + len - 1`. -/
def read (m : Mem β) (off len : Nat) : List β := (List.range len).map fun i => m (off + i)

/-- Stores `bs` from `off` on. -/
def write (m : Mem β) (off : Nat) (bs : List β) : Mem β :=
  fun j => if off ≤ j then (bs[j - off]?).getD (m j) else m j

/-- The block that begins at the address `m + off`. -/
def offset (m : Mem β) (off : Nat) : Mem β := fun i => m (off + i)

/-- `for (i = 0; i < n; i++) m[i] = m[src + i]` -/
def copyDown (m : Mem β) (src : Nat) : Nat → Mem β
  | 0 => m
  | n + 1 => (m.copyDown src n).set n ((m.copyDown src n) (src + n))

/-- `n` rounds of `m[j - 1] = m[j]; j++` -/
def shiftDown (m : Mem β) (j : Nat) : Nat → Mem β
  | 0 => m
  | n + 1 => shiftDown (m.set (j - 1) (m j)) (j + 1) n

variable {m m' : Mem β} {off len i : Nat} {bs : List β}

@[simp] theorem set_self (m : Mem β) (i : Nat) (b : β) : (m.set i b) i = b := if_pos rfl

theorem set_of_ne (m : Mem β) {i j : Nat} (b : β) (h : j ≠ i) : (m.set i b) j = m j := if_neg h

@[simp] theorem length_read (m : Mem β) (off len : Nat) : (m.read off len).length = len := by
  simp [read]

@[simp] theorem read_zero (m : Mem β) (off : Nat) : m.read off 0 = [] := rfl

theorem read_one (m : Mem β) (off : Nat) : m.read off 1 = [m off] := rfl

theorem getElem_read (m : Mem β) (off len i : Nat) (h : i < (m.read off len).length) :
    (m.read off len)[i] = m (off + i) := by
  simp [read]

theorem read_congr (h : ∀ i, i < len → m' (off + i) = m (off + i)) : m'.read off len = m.read off len :=
  List.map_congr_left fun i hi => h i (List.mem_range.1 hi)

theorem read_add (m : Mem β) (off a b : Nat) :
    m.read off (a + b) = m.read off a ++ m.read (off + a) b := by
  simp only [read, List.range_add, List.map_append, List.map_map]
  congr 1
  exact List.map_congr_left fun i _ => by simp [Nat.add_assoc]

theorem read_offset (m : Mem β) (off k len : Nat) : (m.offset off).read k len = m.read (off + k) len :=
  List.map_congr_left fun i _ => congrArg m (Nat.add_assoc off k i).symm

theorem take_read (m : Mem β) (off : Nat) {k len : Nat} (h : k ≤ len) :
    (m.read off len).take k = m.read off k := by
  obtain ⟨d, rfl⟩ := Nat.exists_eq_add_of_le h
  rw [read_add, List.take_left' (length_read ..)]

theorem drop_read (m : Mem β) (off : Nat) {k len : Nat} (h : k ≤ len) :
    (m.read off len).drop k = m.read (off + k) (len - k) := by
  obtain ⟨d, rfl⟩ := Nat.exists_eq_add_of_le h
  rw [read_add, List.drop_left' (length_read ..), Nat.add_sub_cancel_left]

theorem write_before (h : i < off) : m.write off bs i = m i := if_neg (Nat.not_le.2 h)

theorem write_at (h : i < bs.length) : m.write off bs (off + i) = bs[i] := by
  simp [write, h]

theorem write_after (h : off + bs.length ≤ i) : m.write off bs i = m i := by
  rw [write, if_pos (by omega), List.getElem?_eq_none (by omega), Option.getD_none]

theorem read_write_before {k : Nat} (h : k + len ≤ off) : (m.write off bs).read k len = m.read k len :=
  read_congr fun i hi => write_before (by omega)

theorem read_write_self (m : Mem β) (off : Nat) (bs : List β) :
    (m.write off bs).read off bs.length = bs := by
  refine List.ext_getElem (length_read ..) fun i h₁ h₂ => ?_
  rw [getElem_read, write_at h₂]

theorem read_write_append (m : Mem β) (off k : Nat) (bs : List β) :
    (m.write (off + k) bs).read off (k + bs.length) = m.read off k ++ bs := by
  rw [read_add, read_write_before (Nat.le_refl _), read_write_self]

theorem read_write_take {w : List β} {k r : Nat} (h : m.read 0 k = w.take k) (hr : r ≤ (w.drop k).length) :
    (m.write k ((w.drop k).take r)).read 0 (k + r) = w.take (k + r) := by
  have hlen : ((w.drop k).take r).length = r := List.length_take_of_le hr
  have := read_write_append m 0 k ((w.drop k).take r)
  rw [Nat.zero_add, hlen, h] at this
  rw [this, ← List.take_add]

theorem copyDown_apply (m : Mem β) (src n i : Nat) :
    m.copyDown src n i = if i < n then m (src + i) else m i := by
  induction n generalizing i with
  | zero => simp [copyDown]
  | succ n ih =>
    -- cell `src + n` is not yet overwritten when iteration `n` reads it, or it is cell `n` itself
    have hsrc : m.copyDown src n (src + n) = m (src + n) := by rw [ih, if_neg (by omega)]
    rw [copyDown, hsrc]
    by_cases hi : i = n
    · subst hi; simp
    · rw [set_of_ne _ _ hi, ih]
      simp only [show i < n + 1 ↔ i < n by omega]

theorem read_copyDown (m : Mem β) (src n : Nat) : (m.copyDown src n).read 0 n = m.read src n := by
  refine List.map_congr_left fun i hi => ?_
  rw [Nat.zero_add, copyDown_apply, if_pos (List.mem_range.1 hi)]

/-- The cells `i, …, i + n - 1` take what is in the next cell. -/
theorem shiftDown_apply (m : Mem β) (i n k : Nat) :
    m.shiftDown (i + 1) n k = if i ≤ k ∧ k < i + n then m (k + 1) else m k := by
  induction n generalizing m i with
  | zero =>
    rw [if_neg (by omega)]; rfl
  | succ n ih =>
    rw [shiftDown, Nat.add_sub_cancel, ih]
    by_cases hk : k = i
    · subst hk
      rw [if_neg (by omega), if_pos (by omega), set_self]
    · by_cases hlt : i + 1 ≤ k ∧ k < i + 1 + n
      · rw [if_pos hlt, if_pos (by omega), set_of_ne _ _ (by omega)]
      · rw [if_neg hlt, if_neg (by omega), set_of_ne _ _ hk]

theorem read_shiftDown (m : Mem β) {i n : Nat} (hi : i < n) :
    (m.shiftDown (i + 1) (n - (i + 1))).read 0 (n - 1) = (m.read 0 n).eraseIdx i := by
  have hlen : (m.read 0 n).length = n := length_read ..
  refine List.ext_getElem ?_ fun k hk hk' => ?_
  · rw [length_read, List.length_eraseIdx_of_lt (by omega), hlen]
  · rw [length_read] at hk
    rw [getElem_read, Nat.zero_add, shiftDown_apply]
    by_cases hki : k < i
    · rw [if_neg (by omega), List.getElem_eraseIdx_of_lt _ hki, getElem_read, Nat.zero_add]
    · rw [if_pos (by omega), List.getElem_eraseIdx_of_ge _ (by omega), getElem_read, Nat.zero_add]

end Mem
end WlanxVms
