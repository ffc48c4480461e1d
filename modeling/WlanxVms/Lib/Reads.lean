import WlanxVms.Lib.Mem

/-!
# What a program reads of a block of memory

`Reads α` is a program that reads the bytes of a block, at indices that may depend on the bytes read before.
`x.Within n m` says that on the block `m` it reads the first `n` bytes only. A program that is given a
pointer into the block is `x.at off`.
-/

namespace WlanxVms

/-- The result and the indices read, in order -/
def Reads (α : Type) : Type := Mem UInt8 → α × List Nat

namespace Reads
variable {α β : Type}

def value (x : Reads α) (m : Mem UInt8) : α := (x m).1

def indices (x : Reads α) (m : Mem UInt8) : List Nat := (x m).2

instance : Monad Reads where
  pure a := fun _ => (a, [])
  bind x f := fun m => ((f (x.value m)).value m, x.indices m ++ (f (x.value m)).indices m)

def byte (i : Nat) : Reads UInt8 := fun m => (m i, [i])

/-- A function of the first `n` bytes, which it reads one after the other -/
def span (n : Nat) (f : Mem UInt8 → α) : Reads α := fun m => (f m, List.range n)

def bytes (off n : Nat) : Reads (List UInt8) := fun m => (m.read off n, (List.range n).map (off + ·))

def «at» (off : Nat) (x : Reads α) : Reads α := fun m => (x.value (m.offset off), (x.indices (m.offset off)).map (off + ·))

/-- Only the first `n` bytes are read. -/
def Within (n : Nat) (x : Reads α) (m : Mem UInt8) : Prop := ∀ i ∈ x.indices m, i < n

variable {x : Reads α} {f : α → Reads β} {m : Mem UInt8} {n off : Nat}

@[simp] theorem value_pure (a : α) : (pure a : Reads α).value m = a := rfl
@[simp] theorem value_bind : (x >>= f).value m = (f (x.value m)).value m := rfl
@[simp] theorem value_byte (i : Nat) : (byte i).value m = m i := rfl
@[simp] theorem value_span (k : Nat) (g : Mem UInt8 → α) : (span k g).value m = g m := rfl
@[simp] theorem value_bytes (k : Nat) : (bytes off k).value m = m.read off k := rfl
@[simp] theorem value_at : (x.at off).value m = x.value (m.offset off) := rfl

@[simp] theorem within_pure (a : α) : (pure a : Reads α).Within n m ↔ True := ⟨fun _ => trivial, fun _ => nofun⟩

@[simp] theorem within_bind : (x >>= f).Within n m ↔ x.Within n m ∧ (f (x.value m)).Within n m := by
  show (∀ i ∈ x.indices m ++ (f (x.value m)).indices m, i < n) ↔ _
  simp only [List.mem_append, or_imp, forall_and, Within]

@[simp] theorem within_byte (i : Nat) : (byte i).Within n m ↔ i < n := List.forall_mem_singleton

@[simp] theorem within_span (k : Nat) (g : Mem UInt8 → α) : (span k g).Within n m ↔ k ≤ n := by
  show (∀ i ∈ List.range k, i < n) ↔ _
  simp only [List.mem_range]
  exact ⟨fun h => Nat.le_of_not_lt fun hlt => Nat.lt_irrefl n (h n hlt), fun h i hi => Nat.lt_of_lt_of_le hi h⟩

@[simp] theorem within_at : (x.at off).Within n m ↔ x.Within (n - off) (m.offset off) := by
  show (∀ i ∈ (x.indices (m.offset off)).map (off + ·), i < n) ↔ _
  simp only [List.forall_mem_map, Within]
  exact forall₂_congr fun i _ => by omega

theorem within_bytes (k : Nat) : (bytes off k).Within n m ↔ k = 0 ∨ off + k ≤ n := by
  show (∀ i ∈ (List.range k).map (off + ·), i < n) ↔ _
  simp only [List.forall_mem_map, List.mem_range]
  constructor
  · intro h
    rcases Nat.eq_zero_or_pos k with hk | hk
    · exact .inl hk
    · have := h (k - 1) (by omega)
      exact .inr (by omega)
  · rintro h i hi
    omega

theorem within_ite (c : Prop) [Decidable c] (y : Reads α) :
    (if c then x else y).Within n m ↔ if c then x.Within n m else y.Within n m := by
  split <;> rfl

end Reads
end WlanxVms
