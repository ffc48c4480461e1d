import Mathlib.Algebra.Ring.Int.Defs
import Mathlib.Algebra.Ring.Nat
import Mathlib.Data.List.Induction

/-!
# Fixed-width unsigned numbers and their bytes

Unsigned machine numbers are natural numbers; `u16`, `u32` and `u64` reduce a result to its width.
`beBytes k n` are the `k` low bytes of `n`, most significant first; `beValue` and `leValue` are the
numbers that a list of bytes stands for, most or least significant byte first.
-/

namespace WlanxVms

def u16 (n : Nat) : Nat := n % 65536

/-- Conversion to `uint32_t`, of a negative number too. -/
def u32 (n : Int) : Nat := (n % 4294967296).toNat

def u64 (n : Nat) : Nat := n % 18446744073709551616

/-- Conversion of a `uint32_t` to `int`. -/
def asInt (n : Nat) : Int := if n < 2147483648 then n else (n : Int) - 4294967296

/-- The `int` that the machine keeps of a result -/
def i32 (n : Int) : Int := asInt (u32 n)

theorem i32_add (m n : Int) : i32 (i32 m + n) = i32 (m + n) := by
  unfold i32 asInt u32; omega

theorem u32_i32 (n : Int) : u32 (i32 n) = u32 n := by
  unfold i32 asInt u32; omega

theorem u32_of_lt {n : Nat} (h : n < 4294967296) : u32 n = n := by
  unfold u32; omega

theorem u32_sub {m n : Nat} (h : n ≤ m) (hm : m < 4294967296) : u32 ((m : Int) - n) = m - n := by
  unfold u32; omega

theorem u64_of_lt {n : Nat} (h : n < 18446744073709551616) : u64 n = n := Nat.mod_eq_of_lt h

def beBytes : Nat → Nat → List UInt8
  | 0, _ => []
  | k + 1, n => beBytes k (n / 256) ++ [UInt8.ofNat n]

def beValue (bs : List UInt8) : Nat := bs.foldl (fun v b => v * 256 + b.toNat) 0

def leValue : List UInt8 → Nat
  | [] => 0
  | b :: bs => b.toNat + 256 * leValue bs

@[simp] theorem length_beBytes (k n : Nat) : (beBytes k n).length = k := by
  induction k generalizing n with
  | zero => rfl
  | succ k ih => rw [beBytes, List.length_append, ih, List.length_singleton]

theorem beValue_concat (bs : List UInt8) (b : UInt8) :
    beValue (bs ++ [b]) = beValue bs * 256 + b.toNat := by
  simp [beValue, List.foldl_append]

theorem beValue_lt (bs : List UInt8) : beValue bs < 256 ^ bs.length := by
  induction bs using List.reverseRecOn with
  | nil => simp [beValue]
  | append_singleton bs b ih =>
    rw [beValue_concat, List.length_append, List.length_singleton, Nat.pow_succ]
    have := b.toNat_lt
    omega

theorem beValue_beBytes {k n : Nat} (h : n < 256 ^ k) : beValue (beBytes k n) = n := by
  induction k generalizing n with
  | zero => simp [beBytes, beValue]; omega
  | succ k ih =>
    have hd : n / 256 < 256 ^ k := by
      rw [Nat.div_lt_iff_lt_mul (by decide), ← Nat.pow_succ]; exact h
    rw [beBytes, beValue_concat, ih hd, UInt8.toNat_ofNat']
    omega

theorem beBytes_beValue (bs : List UInt8) : beBytes bs.length (beValue bs) = bs := by
  induction bs using List.reverseRecOn with
  | nil => rfl
  | append_singleton bs b ih =>
    have hb := b.toNat_lt
    have hdiv : (beValue bs * 256 + b.toNat) / 256 = beValue bs := by omega
    have hlow : UInt8.ofNat (beValue bs * 256 + b.toNat) = b := by
      refine UInt8.toNat_inj.1 ?_
      rw [UInt8.toNat_ofNat']
      omega
    rw [List.length_append, List.length_singleton, beBytes, beValue_concat, hdiv, hlow, ih]

end WlanxVms
