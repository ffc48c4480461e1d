import WlanxVms.Frame
import WlanxVms.Injector.Checksum

/-!
# The frame check sequence (`utilities.c`)

A frame ends with the CRC-32 of what comes before, least significant byte first. `fcs` compares that with what
it computes itself, but computes it over the whole frame with these four bytes. A frame with the right check
sequence always gives the same number then (`calculated_of_right`).
-/

namespace WlanxVms
namespace Injector

/-- What `fcs` returns, and what it finds at the end of the packet -/
structure FcsResult where
  calculatedFcs : Option (BitVec 32)
  foundFcs : BitVec 32

def fcs (size : UInt32) : Reads FcsResult := do
  let dataStart ← radiotapLen
  let data ← .bytes dataStart (u32 (size.toNat - dataStart))
  let b3 ← .byte (u32 (size.toNat - 1))
  let b2 ← .byte (u32 (size.toNat - 2))
  let b1 ← .byte (u32 (size.toNat - 3))
  let b0 ← .byte (u32 (size.toNat - 4))
  return { calculatedFcs := crc32 data,
           foundFcs := BitVec.ofNat 32 ((b3.toNat <<< 24) + (b2.toNat <<< 16) + (b1.toNat <<< 8) + b0.toNat) }

/-! ### What the packet carries -/

/-- What is between the radiotap header and the last four bytes -/
def frameBody (m : Mem UInt8) (size : UInt32) : List UInt8 :=
  m.read (radiotapLen.value m) (size.toNat - radiotapLen.value m - 4)

/-- The last four bytes, least significant byte first -/
def trailingFcs (m : Mem UInt8) (size : UInt32) : BitVec 32 := BitVec.ofNat 32 (leValue (m.read (size.toNat - 4) 4))

structure ChecksFrame (m : Mem UInt8) (size : UInt32) : Prop where
  calculated : ((fcs size).value m).calculatedFcs = some (crc32Bitwise (frameBody m size))
  agrees : trailingFcs m size = crc32Bitwise (frameBody m size) →
    ((fcs size).value m).calculatedFcs = some ((fcs size).value m).foundFcs

/-- The only four bytes behind a string with the checksum `crc` that leave the checksum as it is -/
def neutralFcs (crc : BitVec 32) : BitVec 32 := ~~~crc ^^^ Crc.unshifts crc32Poly 32 (~~~crc)

variable {m : Mem UInt8} {size : UInt32} {bytes : List UInt8}

/-! ### Four bytes more -/

theorem bits_bytes (bytes : List UInt8) :
    (bytes.map UInt8.toBitVec).flatMap Crc.bits = (List.range (8 * bytes.length)).map (leValue bytes).testBit := by
  induction bytes with
  | nil => rfl
  | cons b bytes ih =>
    have hvalue : leValue (b :: bytes) = 2 ^ 8 * leValue bytes + b.toNat := Nat.add_comm ..
    have hb : b.toNat < 2 ^ 8 := b.toNat_lt
    rw [List.map_cons, List.flatMap_cons, ih, List.length_cons, Nat.mul_succ, Nat.add_comm, List.range_add,
      List.map_append, List.map_map, hvalue]
    congr 1
    · refine List.map_congr_left fun i hi => ?_
      rw [Nat.testBit_two_pow_mul_add _ hb, if_pos (List.mem_range.1 hi)]
      exact BitVec.testBit_toNat _
    · refine List.map_congr_left fun i hi => ?_
      show _ = (2 ^ 8 * leValue bytes + b.toNat).testBit (8 + i)
      rw [Nat.testBit_two_pow_mul_add _ hb, if_neg (by omega), Nat.add_sub_cancel_left]

theorem bits_four {bytes : List UInt8} (h : bytes.length = 4) :
    (bytes.map UInt8.toBitVec).flatMap Crc.bits = Crc.bits (BitVec.ofNat 32 (leValue bytes)) := by
  rw [bits_bytes, h, Crc.bits]
  refine List.map_congr_left fun i hi => ?_
  rw [BitVec.getLsbD_ofNat, decide_eq_true (List.mem_range.1 hi), Bool.true_and]

theorem crc32Bitwise_append_four (bytes : List UInt8) {four : List UInt8} (h : four.length = 4) :
    crc32Bitwise (bytes ++ four) =
      ~~~Crc.shifts crc32Poly 32 (~~~crc32Bitwise bytes ^^^ BitVec.ofNat 32 (leValue four)) := by
  rw [crc32Bitwise, List.map_append, Crc.feed_append, Crc.feed_word (bits_four h), crc32Bitwise, BitVec.not_not]

theorem crc32Bitwise_append_eq_iff {four : List UInt8} (h : four.length = 4) :
    crc32Bitwise (bytes ++ four) = crc32Bitwise bytes ↔
      BitVec.ofNat 32 (leValue four) = neutralFcs (crc32Bitwise bytes) := by
  have hpoly : crc32Poly.msb = true := by decide
  rw [crc32Bitwise_append_four bytes h]
  generalize crc32Bitwise bytes = crc
  generalize BitVec.ofNat 32 (leValue four) = word
  rw [BitVec.not_eq_comm, Crc.shifts_eq_iff hpoly, neutralFcs]
  constructor
  · intro h
    rw [← h, ← BitVec.xor_assoc, BitVec.xor_self, BitVec.zero_xor]
  · intro h
    rw [h, ← BitVec.xor_assoc, BitVec.xor_self, BitVec.zero_xor]

/-! ### `fcs` -/

theorem calculated_eq (h : radiotapLen.value m + 4 ≤ size.toNat) : ((fcs size).value m).calculatedFcs =
    some (crc32Bitwise (frameBody m size ++ m.read (size.toNat - 4) 4)) := by
  have hlt : size.toNat < 4294967296 := size.toNat_lt
  have hdata : m.read (radiotapLen.value m) (u32 (size.toNat - radiotapLen.value m)) =
      frameBody m size ++ m.read (size.toNat - 4) 4 := by
    have hsplit : u32 (size.toNat - radiotapLen.value m) = (size.toNat - radiotapLen.value m - 4) + 4 := by
      rw [u32_sub (by omega) hlt]
      omega
    rw [hsplit, Mem.read_add, show radiotapLen.value m + (size.toNat - radiotapLen.value m - 4) = size.toNat - 4 by omega]
    rfl
  show crc32 (m.read (radiotapLen.value m) (u32 (size.toNat - radiotapLen.value m))) = _
  rw [hdata, crc32_some]

theorem found_eq (h : radiotapLen.value m + 4 ≤ size.toNat) : ((fcs size).value m).foundFcs = trailingFcs m size := by
  have hlt : size.toNat < 4294967296 := size.toNat_lt
  have hindex : ∀ k : Nat, k ≤ 4 → u32 (size.toNat - k) = size.toNat - k := fun k hk => u32_sub (by omega) hlt
  have hread : m.read (size.toNat - 4) 4 = [m (size.toNat - 4), m (size.toNat - 3), m (size.toNat - 2), m (size.toNat - 1)] := by
    show [m (size.toNat - 4), m (size.toNat - 4 + 1), m (size.toNat - 4 + 2), m (size.toNat - 4 + 3)] = _
    rw [show size.toNat - 4 + 1 = size.toNat - 3 by omega, show size.toNat - 4 + 2 = size.toNat - 2 by omega,
      show size.toNat - 4 + 3 = size.toNat - 1 by omega]
  show BitVec.ofNat 32 (((m (u32 (size.toNat - (1 : Nat)))).toNat <<< 24) + ((m (u32 (size.toNat - (2 : Nat)))).toNat <<< 16) +
    ((m (u32 (size.toNat - (3 : Nat)))).toNat <<< 8) + (m (u32 (size.toNat - (4 : Nat)))).toNat) = _
  rw [hindex 1 (by decide), hindex 2 (by decide), hindex 3 (by decide), hindex 4 (by decide), trailingFcs, hread]
  simp only [leValue, Nat.shiftLeft_eq]
  congr 1
  omega

/-- What comes of a frame with the right check sequence does not depend on the frame. -/
theorem calculated_of_right (h : radiotapLen.value m + 4 ≤ size.toNat)
    (hright : trailingFcs m size = crc32Bitwise (frameBody m size)) :
    ((fcs size).value m).calculatedFcs = some 0x2144DF1C := by
  have hones : ~~~crc32Bitwise (frameBody m size) ^^^ crc32Bitwise (frameBody m size) = BitVec.allOnes 32 := by
    rw [BitVec.not_def, BitVec.xor_assoc, BitVec.xor_self, BitVec.xor_zero]
  rw [calculated_eq h, crc32Bitwise_append_four _ (Mem.length_read ..), ← trailingFcs, hright, hones]
  decide +kernel

/-- `fcs` computes the checksum that the frame should carry for exactly those frames that carry the four bytes
that are neutral behind the body. -/
theorem checksFrame_iff (h : radiotapLen.value m + 4 ≤ size.toNat) :
    ChecksFrame m size ↔ trailingFcs m size = neutralFcs (crc32Bitwise (frameBody m size)) := by
  have hiff : crc32Bitwise (frameBody m size ++ m.read (size.toNat - 4) 4) = crc32Bitwise (frameBody m size) ↔
      trailingFcs m size = neutralFcs (crc32Bitwise (frameBody m size)) :=
    crc32Bitwise_append_eq_iff (Mem.length_read ..)
  rw [← hiff]
  constructor
  · intro hchecks
    have hcalc := hchecks.calculated
    rw [calculated_eq h] at hcalc
    exact Option.some.inj hcalc
  · intro heq
    have hcalc : ((fcs size).value m).calculatedFcs = some (crc32Bitwise (frameBody m size)) := by
      rw [calculated_eq h, heq]
    refine ⟨hcalc, fun hright => ?_⟩
    rw [hcalc, found_eq h, hright]

/-- An ACK frame behind a radiotap header of 8 bytes, with its last four bytes -/
def ackFrame (last : List UInt8) : Mem UInt8 := fun i =>
  ([0x00, 0x00, 0x08, 0x00, 0x00, 0x00, 0x00, 0x00, 0xD4, 0x00, 0x00, 0x00, 0x02, 0x00, 0x00, 0x00, 0x00, 0x00] ++ last).getD i 0

theorem checksFrame_iff_neutral : ChecksFrame (ackFrame [0x56, 0x7B, 0xE3, 0xF2]) 22 :=
  (checksFrame_iff (by decide)).2 (by decide +kernel)

/-- The frame has the right check sequence, which is not what is computed. -/
theorem not_checksFrame : ¬ ∀ (m : Mem UInt8) (size : UInt32), radiotapLen.value m + 4 ≤ size.toNat → ChecksFrame m size := by
  intro h
  have hframe : radiotapLen.value (ackFrame [0x4E, 0xE6, 0xB8, 0xF8]) + 4 ≤ (22 : UInt32).toNat := by decide
  have hright : trailingFcs (ackFrame [0x4E, 0xE6, 0xB8, 0xF8]) 22 =
      crc32Bitwise (frameBody (ackFrame [0x4E, 0xE6, 0xB8, 0xF8]) 22) := by decide +kernel
  have hcalc := (h _ 22 hframe).calculated
  rw [calculated_of_right hframe hright] at hcalc
  revert hcalc
  decide +kernel

end Injector
end WlanxVms
