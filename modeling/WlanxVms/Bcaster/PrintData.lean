import WlanxVms.Frame
import WlanxVms.Wire

/-!
# The printing of packets (`print_data.c`)

`printDataAddPkt` stores the first `DATA_SIZE` bytes of a packet for the printing thread, but the whole
length. `printDataWorker` is what that thread does with one packet, as a program that reads the stored bytes;
the packet on the wire begins with its length and time stamp, 20 bytes.
-/

namespace WlanxVms
namespace Bcaster

def dataSize : Nat := 100

structure PrintData where
  client : Int
  len : Int
  color : Int
  data : Mem UInt8

def storedSize (len : UInt32) : Nat := if len.toNat < dataSize then len.toNat else dataSize

def printDataAddPkt (pd : PrintData) (client : Int) (pkt : Mem UInt8) (len : UInt32) (color : Int) : PrintData :=
  { client, len := asInt len.toNat, color, data := pd.data.write 0 (pkt.read 0 (storedSize len)) }

/-- `data_start[i+6]` for `i` from 0 to `data_len - 6`, a difference of two `int`s -/
def printBytes (dataLen : Int) : Reads Unit := do
  let _ ← .bytes 6 (asInt (u32 (dataLen - 6))).toNat
  return ()

/-- What is printed of the data of a data frame, from `data_start` on -/
def printPayload (printDataBytes : Bool) (dataLen : Int) : Reads Unit := do
  let _ ← pktGetLlcTypeString dataLen
  let _ ← pktGetEtherTypeString dataLen
  if printDataBytes then printBytes dataLen else pure ()

/-- What is printed of a packet, from `pkt_start` on -/
def printPkt (printDataBytes : Bool) (pktLen : Int) : Reads Unit := do
  let _ ← pktGetTypeString pktLen
  let d ← pktIsData pktLen
  let _ ← if d.1 then (printPayload printDataBytes d.2.2).at d.2.1 else pure ()
  let _ ← pktGetFrameControl pktLen
  return ()

/-- `ignore_beacons && pkt_is_beacon(pkt_start, pkt_len)` -/
def isIgnored (ignoreBeacons : Bool) (pktLen : Int) : Reads Bool :=
  if ignoreBeacons then pktIsBeacon pktLen else pure false

def printDataWorker (ignoreBeacons printDataBytes : Bool) (pd : PrintData) : Reads Unit :=
  if pd.len < 4 then pure ()
  else do
    let pktLen ← .span 4 fun m => asInt (pktGetLength m)
    let ignored ← (isIgnored ignoreBeacons pktLen).at 20
    if ignored then pure () else (printPkt printDataBytes pktLen).at 20

/-! ### When it stays inside the packet -/

def payloadLen (pkt : Mem UInt8) : Int := asInt (u32 (asInt (pktGetLength pkt) - radiotapLen.value (pkt.offset 20) - 24))

/-- The data of a data frame is long enough for the type strings, and for the bytes that are printed, whose number is
computed without an overflow. -/
def PayloadInside (printDataBytes : Bool) (pkt : Mem UInt8) (n : Nat) : Prop :=
  let len := radiotapLen.value (pkt.offset 20)
  let snap := snapType.value (pkt.offset (len + 44))
  len + 52 ≤ n ∧ (snap = snapTypeIpv4 → len + 62 ≤ n) ∧ (snap = snapTypeIpv6 → len + 60 ≤ n) ∧
    (printDataBytes = true →
      -2147483642 ≤ payloadLen pkt ∧ (6 < payloadLen pkt → (len : Int) + 44 + payloadLen pkt ≤ n))

/-- A packet of which `n` bytes are stored is long enough for what is decoded of it. -/
def PrintsInside (ignoreBeacons printDataBytes : Bool) (pkt : Mem UInt8) (n : Nat) : Prop :=
  radiotapLen.value (pkt.offset 20) + 30 ≤ n ∧
    (ignoreBeacons = true ∧ typeSubtypeOf (fcField (pkt.offset 20)) = frameTypeBeacon ∨
      typeSubtypeOf (fcField (pkt.offset 20)) ∉ frameTypesData ∨ PayloadInside printDataBytes pkt n)

variable {m : Mem UInt8} {n : Nat} {ignoreBeacons printDataBytes : Bool}

/-- Where `data_len - 6` overflows, the loop goes on for nearly `INT_MAX` bytes. -/
theorem within_printBytes (hn : n ≤ dataSize) (k : Int) : (printBytes (asInt (u32 k))).Within n m ↔
    -2147483642 ≤ asInt (u32 k) ∧ (6 < asInt (u32 k) → asInt (u32 k) ≤ n) := by
  have hd : dataSize = 100 := rfl
  simp only [printBytes, Reads.within_bind, Reads.within_bytes, Reads.within_pure, and_true]
  unfold asInt u32
  omega

theorem within_printPayload (hn : n ≤ dataSize) (k : Int) : (printPayload printDataBytes (asInt (u32 k))).Within n m ↔
    8 ≤ n ∧ (snapType.value m = snapTypeIpv4 → 18 ≤ n) ∧ (snapType.value m = snapTypeIpv6 → 16 ≤ n) ∧
      (printDataBytes = true → -2147483642 ≤ asInt (u32 k) ∧ (6 < asInt (u32 k) → asInt (u32 k) ≤ n)) := by
  simp only [printPayload, Reads.within_bind, within_pktGetLlcTypeString, within_pktGetEtherTypeString, Reads.within_ite,
    within_printBytes hn, Reads.within_pure]
  cases printDataBytes
  · simp only [Bool.false_eq_true, if_false, and_true, false_implies]
    omega
  · simp only [if_true, true_implies]
    omega

theorem within_printPkt (pktLen : Int) : (printPkt printDataBytes pktLen).Within n m ↔
    radiotapLen.value m + 10 ≤ n ∧ (typeSubtypeOf (fcField m) ∈ frameTypesData →
      (printPayload printDataBytes (asInt (u32 (pktLen - radiotapLen.value m - 24)))).Within (n - (radiotapLen.value m + 24))
        (m.offset (radiotapLen.value m + 24))) := by
  have hdata : (pktIsData pktLen).value m = (decide (typeSubtypeOf (fcField m) ∈ frameTypesData), radiotapLen.value m + 24,
      asInt (u32 (pktLen - radiotapLen.value m - 24))) := rfl
  simp only [printPkt, Reads.within_bind, within_pktGetTypeString, within_pktIsData, within_pktGetFrameControl,
    Reads.within_pure, and_true, Reads.within_ite, hdata, decide_eq_true_eq, Reads.within_at]
  split
  · next h => exact ⟨fun h' => ⟨h'.1, fun _ => h'.2.2.1⟩, fun h' => ⟨h'.1, h'.1, h'.2 h, h'.1⟩⟩
  · next h => exact ⟨fun h' => ⟨h'.1, fun h'' => absurd h'' h⟩, fun h' => ⟨h'.1, h'.1, h'.1⟩⟩

theorem offset_offset (m : Mem UInt8) (i j : Nat) : (m.offset i).offset j = m.offset (i + j) :=
  funext fun k => congrArg m (Nat.add_assoc i j k).symm

theorem within_isIgnored (pktLen : Int) :
    (isIgnored ignoreBeacons pktLen).Within n m ↔ (ignoreBeacons = true → radiotapLen.value m + 10 ≤ n) := by
  simp only [isIgnored, Reads.within_ite, within_pktIsBeacon, Reads.within_pure]
  cases ignoreBeacons <;> simp

theorem value_isIgnored (pktLen : Int) : (isIgnored ignoreBeacons pktLen).value m = true ↔
    ignoreBeacons = true ∧ typeSubtypeOf (fcField m) = frameTypeBeacon := by
  cases ignoreBeacons with
  | false => exact ⟨nofun, fun h => nomatch h.1⟩
  | true =>
    show decide (typeSubtypeOf (fcField m) = frameTypeBeacon) = true ↔ _
    rw [decide_eq_true_eq]
    exact ⟨fun h => ⟨rfl, h⟩, And.right⟩

theorem payloadInside_iff (hn : n ≤ dataSize) (pkt : Mem UInt8) :
    (printPayload printDataBytes (payloadLen pkt)).Within (n - 20 - (radiotapLen.value (pkt.offset 20) + 24))
        ((pkt.offset 20).offset (radiotapLen.value (pkt.offset 20) + 24)) ↔
      PayloadInside printDataBytes pkt n := by
  have hoff : 20 + (radiotapLen.value (pkt.offset 20) + 24) = radiotapLen.value (pkt.offset 20) + 44 := by omega
  have hrest : n - 20 - (radiotapLen.value (pkt.offset 20) + 24) ≤ dataSize := by omega
  rw [payloadLen, within_printPayload hrest, ← payloadLen, offset_offset, hoff, PayloadInside]
  refine and_congr (by omega) (and_congr ?_ (and_congr ?_ ?_))
  · exact forall_congr' fun _ => by omega
  · exact forall_congr' fun _ => by omega
  · exact forall_congr' fun _ => and_congr_right fun _ => forall_congr' fun h => by omega

theorem within_printDataWorker {pd : PrintData} (hn : n ≤ dataSize) (hlen : 4 ≤ pd.len → 4 ≤ n) :
    (printDataWorker ignoreBeacons printDataBytes pd).Within n pd.data ↔
      pd.len < 4 ∨ PrintsInside ignoreBeacons printDataBytes pd.data n := by
  unfold printDataWorker
  split
  · next h => exact ⟨fun _ => .inl h, fun _ => (Reads.within_pure ()).2 trivial⟩
  · next h =>
    have h4 : 4 ≤ n := hlen (Int.not_lt.1 h)
    have hlen : radiotapLen.value (pd.data.offset 20) + 10 ≤ n - 20 ↔ radiotapLen.value (pd.data.offset 20) + 30 ≤ n := by omega
    simp only [Reads.within_bind, Reads.within_span, h4, true_and, Reads.value_span, h, false_or, Reads.within_at,
      Reads.value_at, Reads.within_ite, within_isIgnored, value_isIgnored, Reads.within_pure, within_printPkt]
    rw [PrintsInside, hlen, ← payloadLen, payloadInside_iff hn]
    by_cases hign : ignoreBeacons = true ∧ typeSubtypeOf (fcField (pd.data.offset 20)) = frameTypeBeacon
    · rw [if_pos hign]
      exact ⟨fun h' => ⟨h'.1 hign.1, .inl hign⟩, fun h' => ⟨fun _ => h'.1, trivial⟩⟩
    · rw [if_neg hign]
      constructor
      · rintro ⟨-, hin, hdata⟩
        refine ⟨hin, .inr ?_⟩
        by_cases hd : typeSubtypeOf (fcField (pd.data.offset 20)) ∈ frameTypesData
        · exact .inr (hdata hd)
        · exact .inl hd
      · rintro ⟨hin, hor⟩
        refine ⟨fun _ => hin, hin, fun hd => ?_⟩
        exact (hor.resolve_left hign).resolve_left fun hnot => hnot hd

/-! ### Only the stored bytes matter -/

theorem PrintsInside.congr {m m' : Mem UInt8} (hn : 4 ≤ n) (heq : ∀ i < n, m' i = m i)
    (h : PrintsInside ignoreBeacons printDataBytes m n) : PrintsInside ignoreBeacons printDataBytes m' n := by
  obtain ⟨hin, hor⟩ := h
  have hlen : radiotapLen.value (m'.offset 20) = radiotapLen.value (m.offset 20) := by
    show (m' 22).toNat + ((m' 23).toNat <<< 8) = (m 22).toNat + ((m 23).toNat <<< 8)
    rw [heq 22 (by omega), heq 23 (by omega)]
  have hfield : fcField (m'.offset 20) = fcField (m.offset 20) := by
    show m' (20 + radiotapLen.value (m'.offset 20)) = m (20 + radiotapLen.value (m.offset 20))
    rw [hlen]
    exact heq _ (by omega)
  have hlength : pktGetLength m' = pktGetLength m := by
    unfold pktGetLength getLength
    rw [heq 0 (by omega), heq 1 (by omega), heq 2 (by omega), heq 3 (by omega)]
  refine ⟨by rw [hlen]; exact hin, ?_⟩
  rw [hfield]
  refine hor.imp id (Or.imp id fun hpay => ?_)
  have hpayload : payloadLen m' = payloadLen m := by rw [payloadLen, payloadLen, hlength, hlen]
  have hsnap : snapType.value (m'.offset (radiotapLen.value (m.offset 20) + 44)) =
      snapType.value (m.offset (radiotapLen.value (m.offset 20) + 44)) := by
    have h52 : radiotapLen.value (m.offset 20) + 52 ≤ n := hpay.1
    show u16 (((m' (radiotapLen.value (m.offset 20) + 44 + 6)).toNat <<< 8) + (m' (radiotapLen.value (m.offset 20) + 44 + 7)).toNat) =
      u16 (((m (radiotapLen.value (m.offset 20) + 44 + 6)).toNat <<< 8) + (m (radiotapLen.value (m.offset 20) + 44 + 7)).toNat)
    rw [heq _ (by omega), heq _ (by omega)]
  rw [PayloadInside, hlen, hsnap, hpayload]
  exact hpay

theorem storedSize_eq (len : UInt32) : storedSize len = min len.toNat dataSize := by
  unfold storedSize
  split <;> omega

theorem within_printDataAddPkt (slot : PrintData) (client : Int) (pkt : Mem UInt8) (len : UInt32) (color : Int) :
    (printDataWorker ignoreBeacons printDataBytes (printDataAddPkt slot client pkt len color)).Within (min len.toNat dataSize)
        (printDataAddPkt slot client pkt len color).data ↔
      asInt len.toNat < 4 ∨ PrintsInside ignoreBeacons printDataBytes pkt (min len.toNat dataSize) := by
  have hlen : 4 ≤ asInt len.toNat → 4 ≤ min len.toNat dataSize := by
    have hd : dataSize = 100 := rfl
    unfold asInt
    omega
  have hdata : ∀ i < min len.toNat dataSize, (printDataAddPkt slot client pkt len color).data i = pkt i := by
    intro i hi
    rw [← storedSize_eq] at hi
    have hlt : i < (pkt.read 0 (storedSize len)).length := by rw [Mem.length_read]; exact hi
    have hread : slot.data.write 0 (pkt.read 0 (storedSize len)) (0 + i) = (pkt.read 0 (storedSize len))[i] :=
      Mem.write_at hlt
    rw [Nat.zero_add, Mem.getElem_read, Nat.zero_add] at hread
    exact hread
  rw [within_printDataWorker (Nat.min_le_right ..) hlen]
  by_cases h4 : asInt len.toNat < 4
  · exact ⟨fun _ => .inl h4, fun _ => .inl h4⟩
  · have hn := hlen (Int.not_lt.1 h4)
    exact or_congr_right ⟨.congr hn fun i hi => (hdata i hi).symm, .congr hn hdata⟩

/-- The decoding of a captured packet reads captured bytes only when its first ten bytes behind the radiotap
header were captured, and the printing of a packet reads stored bytes only under `PrintsInside`. -/
theorem decoding_inside_iff (pktData : Mem UInt8) (caplen : UInt32) (ignoreBeacons printDataBytes : Bool) (slot : PrintData)
    (client : Int) (pkt : Mem UInt8) (len : UInt32) (color : Int) :
    ((isAck (asInt caplen.toNat)).Within caplen.toNat pktData ↔ radiotapLen.value pktData + 10 ≤ caplen.toNat) ∧
      ((printDataWorker ignoreBeacons printDataBytes (printDataAddPkt slot client pkt len color)).Within
          (min len.toNat dataSize) (printDataAddPkt slot client pkt len color).data ↔
        asInt len.toNat < 4 ∨ PrintsInside ignoreBeacons printDataBytes pkt (min len.toNat dataSize)) :=
  ⟨within_isAck _, within_printDataAddPkt slot client pkt len color⟩

/-- Of a frame with a radiotap header of 8 bytes, 14 bytes are captured. A data packet of 150 bytes is printed,
of which 100 are stored. -/
theorem not_decoding_inside :
    ¬ (∀ (pktData : Mem UInt8) (caplen : UInt32), (isAck (asInt caplen.toNat)).Within caplen.toNat pktData) ∧
    ¬ ∀ (slot : PrintData) (client : Int) (pkt : Mem UInt8) (len : UInt32) (color : Int),
      (printDataWorker false true (printDataAddPkt slot client pkt len color)).Within
        (min len.toNat dataSize) (printDataAddPkt slot client pkt len color).data := by
  constructor
  · intro h
    have hin := (within_isAck _).1 (h ((Mem.fill 0).set 2 8) 14)
    revert hin
    decide
  · intro h
    have hin := (within_printDataAddPkt ..).1
      (h ⟨0, 0, 0, Mem.fill 0⟩ 0 (((Mem.fill 0).set 3 130).set 22 8 |>.set 28 8) 150 0)
    rcases hin with hlen | ⟨-, hign | hdata | hpay⟩
    · revert hlen
      decide
    · exact absurd hign.1 Bool.false_ne_true
    · revert hdata
      decide
    · have hlast := (hpay.2.2.2 rfl).2 (by decide)
      revert hlast
      decide

end Bcaster
end WlanxVms
