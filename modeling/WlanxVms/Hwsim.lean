import Mathlib.Data.FinEnum
import Mathlib.Data.Vector.Basic
import WlanxVms.Lib.Machine

/-!
# The addresses of the simulated radios (`mac80211_hwsim.c`)

`Driver` is one loaded instance of the driver, with its parameter `starting_mac_addr`, and `newRadio`
is `mac80211_hwsim_new_radio`. Instances in different virtual machines share the air, so their radios
need different addresses. The shifted index `starting_mac_addr + idx` is added into one byte of the
address only, next to the bits of `idx` (not shifted) above the eighth.
-/

namespace WlanxVms
namespace Hwsim

abbrev ethAlen : Nat := 6

/-- The fields of `struct mac80211_hwsim_data` that the addresses depend on -/
structure Radio where
  idx : Int
  addresses : Vector (Vector UInt8 ethAlen) 2
deriving DecidableEq

structure Driver where
  startingMacAddr : Int
  hwsimRadioIdx : Int
  hwsimRadios : List Radio

structure NewRadioParams where
  channels : Nat
  useChanctx : Bool

/-- What the kernel answers to `mac80211_hwsim_new_radio` -/
inductive NewRadioOutcome where
  | allocHwFails
  | deviceCreateFails
  | bindDriverFails (err : Int)
  | registerHwFails (err : Int)
  | ok

/-- `addr` -/
def addrOf (idx startingMacAddr : Int) : Vector UInt8 ethAlen :=
  #v[0x02, 0, 0, UInt8.ofInt (idx >>> (8 : Nat)), UInt8.ofInt (idx + startingMacAddr), 0]

def radioOf (idx startingMacAddr : Int) : Radio :=
  let addr := addrOf idx startingMacAddr
  { idx, addresses := #v[addr, addr.set 0 (addr[0] ||| 0x40)] }

namespace Driver

/-- The driver when it is loaded -/
def load (startingMacAddr : Int) : Driver := { startingMacAddr, hwsimRadioIdx := 0, hwsimRadios := [] }

/-- `mac80211_hwsim_new_radio`; a call that fails after it took an index does not give it back. -/
def newRadio (d : Driver) (param : NewRadioParams) (o : NewRadioOutcome) : Driver × Int :=
  if 1 < param.channels ∧ !param.useChanctx then (d, -22)
  else
    let idx := d.hwsimRadioIdx
    let d := { d with hwsimRadioIdx := idx + 1 }
    match o with
    | .allocHwFails | .deviceCreateFails => (d, -12)
    | .bindDriverFails err | .registerHwFails err => (d, err)
    | .ok => ({ d with hwsimRadios := d.hwsimRadios ++ [radioOf idx d.startingMacAddr] }, idx)

/-- A call, as a step of the instance -/
def step (d : Driver) (a : NewRadioParams × NewRadioOutcome) : Option Driver := some (d.newRadio a.1 a.2).1

end Driver

/-- `r` is a radio of an instance that was loaded with `starting_mac_addr = s`. -/
def RadioOf (s : Int) (r : Radio) : Prop :=
  ∃ calls d, Path Driver.step AnyStep (Driver.load s) calls d ∧ r ∈ d.hwsimRadios

/-- No address of one radio is an address of the other. -/
def Radio.Apart (r r' : Radio) : Prop := ∀ a ∈ r.addresses, ∀ b ∈ r'.addresses, a ≠ b

instance (r r' : Radio) : Decidable (r.Apart r') := by unfold Radio.Apart; infer_instance

/-! ### The radios of an instance -/

/-- What the calls keep -/
structure Driver.Inv (s : Int) (d : Driver) : Prop where
  start : d.startingMacAddr = s
  nonneg : 0 ≤ d.hwsimRadioIdx
  radios : ∀ r ∈ d.hwsimRadios, 0 ≤ r.idx ∧ r = radioOf r.idx s

variable {s s₁ s₂ : Int} {r r₁ r₂ : Radio} {d d' : Driver}

theorem Driver.Inv.step {a : NewRadioParams × NewRadioOutcome} (h : d.Inv s) (hs : d.step a = some d') : d'.Inv s := by
  obtain ⟨param, o⟩ := a
  obtain rfl : (d.newRadio param o).1 = d' := Option.some.inj hs
  have hnn := h.nonneg
  unfold newRadio
  split
  · exact h
  · cases o with
    | ok =>
      refine ⟨h.start, by simp only; omega, fun r hr => ?_⟩
      rcases List.mem_append.1 hr with hr | hr
      · exact h.radios r hr
      · obtain rfl := List.mem_singleton.1 hr
        exact ⟨hnn, by rw [h.start]; rfl⟩
    | _ => exact ⟨h.start, by simp only; omega, h.radios⟩

theorem RadioOf.eq (h : RadioOf s r) : 0 ≤ r.idx ∧ r = radioOf r.idx s := by
  obtain ⟨calls, d, hp, hr⟩ := h
  have hinv : d.Inv s := hp.invariant (Driver.Inv s) (fun _ _ _ hi _ hs => hi.step hs)
    ⟨rfl, Int.le_refl 0, fun _ hr => nomatch hr⟩
  exact hinv.radios r hr

theorem path_ok (d : Driver) (n : Nat) :
    ∃ d', Path Driver.step AnyStep d (List.replicate (n + 1) (⟨1, false⟩, .ok)) d' ∧
      radioOf (d.hwsimRadioIdx + n) d.startingMacAddr ∈ d'.hwsimRadios := by
  induction n generalizing d with
  | zero =>
    refine ⟨_, .single trivial rfl, List.mem_append.2 (.inr ?_)⟩
    simp
  | succ n ih =>
    obtain ⟨d', hp, hmem⟩ := ih (d.newRadio ⟨1, false⟩ .ok).1
    refine ⟨d', .cons trivial rfl hp, ?_⟩
    have hidx : d.hwsimRadioIdx + ((n + 1 : Nat) : Int) = d.hwsimRadioIdx + 1 + n := by omega
    rw [hidx]
    exact hmem

theorem RadioOf.of_idx {i : Int} (hi : 0 ≤ i) (s : Int) : RadioOf s (radioOf i s) := by
  obtain ⟨d, hp, hmem⟩ := path_ok (Driver.load s) i.toNat
  have hidx : (Driver.load s).hwsimRadioIdx + (i.toNat : Int) = i := by
    show 0 + (i.toNat : Int) = i
    omega
  rw [hidx] at hmem
  exact ⟨_, d, hp, hmem⟩

/-! ### When two radios share an address -/

theorem ofInt_eq_iff (x y : Int) : UInt8.ofInt x = UInt8.ofInt y ↔ x % 256 = y % 256 := by
  rw [← UInt8.toNat_inj, ← Int.natCast_inj]
  simp only [UInt8.ofInt, UInt8.toNat_ofNat']
  omega

theorem addrOf_eq_iff {i₁ i₂ : Int} (h₁ : 0 ≤ i₁ ∧ i₁ ≤ 65535) (h₂ : 0 ≤ i₂ ∧ i₂ ≤ 65535) :
    addrOf i₁ s₁ = addrOf i₂ s₂ ↔ i₁ / 256 = i₂ / 256 ∧ (s₁ + i₁) % 256 = (s₂ + i₂) % 256 := by
  have hbytes : addrOf i₁ s₁ = addrOf i₂ s₂ ↔
      UInt8.ofInt (i₁ >>> (8 : Nat)) = UInt8.ofInt (i₂ >>> (8 : Nat)) ∧ UInt8.ofInt (i₁ + s₁) = UInt8.ofInt (i₂ + s₂) := by
    simp [addrOf, -UInt8.ofInt_add]
  have hhigh : ∀ i : Int, i >>> (8 : Nat) = i / 256 := fun i => Int.shiftRight_eq_div_pow i 8
  rw [hbytes, ofInt_eq_iff, ofInt_eq_iff, hhigh, hhigh]
  omega

theorem radioOf_apart_iff {i₁ i₂ : Int} (h₁ : 0 ≤ i₁ ∧ i₁ ≤ 65535) (h₂ : 0 ≤ i₂ ∧ i₂ ≤ 65535) :
    (radioOf i₁ s₁).Apart (radioOf i₂ s₂) ↔ i₁ / 256 ≠ i₂ / 256 ∨ (s₁ + i₁) % 256 ≠ (s₂ + i₂) % 256 := by
  rw [← not_and_or, ← addrOf_eq_iff h₁ h₂]
  refine ⟨fun h => h _ (by simp [radioOf]) _ (by simp [radioOf]), ?_⟩
  intro hne a ha b hb
  simp only [radioOf, Vector.mem_mk, List.mem_toArray, List.mem_cons, List.not_mem_nil, or_false] at ha hb
  -- the first byte tells `addresses[0]` from `addresses[1]`, which are equal only if all bytes are
  have hfirst : (2 : UInt8) ≠ 2 ||| 64 := by decide
  rcases ha with rfl | rfl <;> rcases hb with rfl | rfl
  · exact hne
  · simp [addrOf, hfirst]
  · simp [addrOf, hfirst.symm]
  · intro heq
    refine hne ?_
    simpa [addrOf] using heq

/-- Two ranges of radios, when all of their addresses are different: block 0 is the only one that a
range reaches from its beginning, so it decides. -/
theorem ranges_apart_iff {n₁ n₂ : Int} (h₁ : 0 ≤ n₁ ∧ n₁ ≤ 65536) (h₂ : 0 ≤ n₂ ∧ n₂ ≤ 65536) :
    (∀ i₁ i₂, 0 ≤ i₁ → i₁ < n₁ → 0 ≤ i₂ → i₂ < n₂ → (radioOf i₁ s₁).Apart (radioOf i₂ s₂)) ↔
      n₁ = 0 ∨ n₂ = 0 ∨ min n₁ 256 ≤ (s₂ - s₁) % 256 ∧ (s₂ - s₁) % 256 ≤ 256 - min n₂ 256 := by
  constructor
  · intro h
    by_contra hcon
    have hfirst : 0 ≤ (s₂ - s₁) % 256 ∧ (s₂ - s₁) % 256 < 256 := by omega
    by_cases hlt : (s₂ - s₁) % 256 < n₁
    · have hap := (radioOf_apart_iff (by omega) (by omega)).1 (h ((s₂ - s₁) % 256) 0 (by omega) hlt (by omega) (by omega))
      omega
    · have hap := (radioOf_apart_iff (by omega) (by omega)).1
        (h 0 (256 - (s₂ - s₁) % 256) (by omega) (by omega) (by omega) (by omega))
      omega
  · intro h i₁ i₂ hi₁ hn₁ hi₂ hn₂
    refine (radioOf_apart_iff (by omega) (by omega)).2 ?_
    omega

/-! ### The instances in different virtual machines -/

/-- Radios whose shifted indices differ have no address in common when their indices are in different
blocks of 256 or the shifted indices differ modulo 256, and only then. Of the instances that are given
disjoint ranges those share no address whose ranges, cut at 256 radios, are disjoint modulo 256. -/
theorem addresses_unique (s₁ s₂ : Int) :
    (∀ r₁ r₂, RadioOf s₁ r₁ → RadioOf s₂ r₂ → r₁.idx ≤ 65535 → r₂.idx ≤ 65535 →
      0 ≤ s₁ + r₁.idx ∧ s₁ + r₁.idx < 65536 → 0 ≤ s₂ + r₂.idx ∧ s₂ + r₂.idx < 65536 →
      s₁ + r₁.idx ≠ s₂ + r₂.idx →
      (r₁.Apart r₂ ↔ r₁.idx / 256 ≠ r₂.idx / 256 ∨ (s₁ + r₁.idx) % 256 ≠ (s₂ + r₂.idx) % 256)) ∧
    ∀ n₁ n₂, 0 ≤ n₁ ∧ 0 ≤ s₁ ∧ s₁ + n₁ ≤ 65536 → 0 ≤ n₂ ∧ 0 ≤ s₂ ∧ s₂ + n₂ ≤ 65536 →
      s₁ + n₁ ≤ s₂ ∨ s₂ + n₂ ≤ s₁ →
      ((∀ r₁ r₂, RadioOf s₁ r₁ → RadioOf s₂ r₂ → r₁.idx < n₁ → r₂.idx < n₂ → r₁.Apart r₂) ↔
        n₁ = 0 ∨ n₂ = 0 ∨ min n₁ 256 ≤ (s₂ - s₁) % 256 ∧ (s₂ - s₁) % 256 ≤ 256 - min n₂ 256) := by
  constructor
  · intro r₁ r₂ h₁ h₂ hi₁ hi₂ _ _ _
    have hap : (radioOf r₁.idx s₁).Apart (radioOf r₂.idx s₂) ↔ _ :=
      radioOf_apart_iff ⟨h₁.eq.1, hi₁⟩ ⟨h₂.eq.1, hi₂⟩
    rw [← h₁.eq.2, ← h₂.eq.2] at hap
    exact hap
  · intro n₁ n₂ hn₁ hn₂ _
    rw [← ranges_apart_iff (by omega) (by omega)]
    constructor
    · intro h i₁ i₂ hi₁ hlt₁ hi₂ hlt₂
      exact h _ _ (.of_idx hi₁ s₁) (.of_idx hi₂ s₂) hlt₁ hlt₂
    · intro h r₁ r₂ h₁ h₂ hlt₁ hlt₂
      rw [h₁.eq.2, h₂.eq.2]
      exact h _ _ h₁.eq.1 hlt₁ h₂.eq.1 hlt₂

/-- Ranges of four radios that begin at 0 and at 4, and radios with the indices 0 and 300. -/
theorem addresses_unique_four :
    ((radioOf 0 0).Apart (radioOf 300 4) ↔ (0 : Int) / 256 ≠ 300 / 256 ∨ ((0 : Int) + 0) % 256 ≠ (4 + 300) % 256) ∧
    ((∀ r₁ r₂, RadioOf 0 r₁ → RadioOf 4 r₂ → r₁.idx < 4 → r₂.idx < 4 → r₁.Apart r₂) ↔
      (4 : Int) = 0 ∨ (4 : Int) = 0 ∨ min (4 : Int) 256 ≤ (4 - 0) % 256 ∧ ((4 : Int) - 0) % 256 ≤ 256 - min 4 256) :=
  ⟨(addresses_unique 0 4).1 _ _ (.of_idx (by decide) 0) (.of_idx (by decide) 4) (by decide) (by decide)
      (by decide) (by decide) (by decide),
    (addresses_unique 0 4).2 4 4 (by decide) (by decide) (by decide)⟩

/-- Instances given the ranges `[0, 1)` and `[256, 257)`: their first radios have the same addresses. -/
theorem not_addresses_unique :
    ¬ ∀ (s₁ s₂ : Int) (r₁ r₂ : Radio), RadioOf s₁ r₁ → RadioOf s₂ r₂ → r₁.idx ≤ 65535 → r₂.idx ≤ 65535 →
      0 ≤ s₁ + r₁.idx ∧ s₁ + r₁.idx < 65536 → 0 ≤ s₂ + r₂.idx ∧ s₂ + r₂.idx < 65536 →
      s₁ + r₁.idx ≠ s₂ + r₂.idx → r₁.Apart r₂ := by
  intro h
  have hap := h 0 256 _ _ (.of_idx (show (0 : Int) ≤ 0 by decide) 0) (.of_idx (show (0 : Int) ≤ 0 by decide) 256)
    (by decide) (by decide) (by decide) (by decide) (by decide)
  exact hap (addrOf 0 0) (by simp [radioOf]) (addrOf 0 256) (by simp [radioOf]) (by decide)

end Hwsim
end WlanxVms
