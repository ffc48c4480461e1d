import WlanxVms.Frame
import WlanxVms.Hwsim.MonXmit

/-!
# Through the monitor interface of another machine (`mac80211_hwsim_monitor_rx`)

The driver puts a radiotap header before each frame that it transmits and gives the packet to the monitor interface.
When the packet is written to the monitor interface of another machine, `hwsim_mon_xmit` takes the header off again:
each of its radios gets the frame, on the frequency on which it was transmitted, but always in the 2 GHz band. What
`is_ack` of the cross_injector finds in a packet is what the driver finds in its frame.
-/

namespace WlanxVms
namespace Hwsim

/-- A call of `mac80211_hwsim_monitor_rx`: `tsf` is from `__mac80211_hwsim_get_tsf`, `bitrate` and `erpG` are of the
rate, and `freq` is the `center_freq` of the channel. -/
structure Monitored where
  tsf : UInt64
  bitrate : UInt16
  erpG : Bool
  freq : UInt16
  frame : List UInt8

/-- `IEEE80211_CHAN_CCK`, `IEEE80211_CHAN_OFDM` -/
def chanCck : UInt16 := 0x0020
def chanOfdm : UInt16 := 0x0040

/-- `cpu_to_le16`, `cpu_to_le64` -/
def cpuToLe16 (v : UInt16) : List UInt8 := [(v &&& 0x00FF).toUInt8, ((v / 256) &&& 0x00FF).toUInt8]
def cpuToLe64 (v : UInt64) : List UInt8 := (List.range 8).map fun i => byteOfU64 i v

/-- `struct hwsim_radiotap_hdr`, with `TSFT`, `FLAGS`, `RATE` and `CHANNEL` present -/
def hwsimRadiotapHdr (x : Monitored) : List UInt8 :=
  [0, 0, 22, 0, 0x0F, 0, 0, 0] ++ cpuToLe64 x.tsf ++ [0, (x.bitrate / 5).toUInt8] ++ cpuToLe16 x.freq ++
    cpuToLe16 (0x0080 ||| if x.erpG then chanOfdm else chanCck)

/-- The packet of `mac80211_hwsim_monitor_rx` -/
def monitorRx (x : Monitored) : List UInt8 := hwsimRadiotapHdr x ++ x.frame

/-- The packet of `mac80211_hwsim_monitor_ack`, with `struct hwsim_radiotap_ack_hdr` -/
def monitorAck (freq : UInt16) (addr : MacAddr) : List UInt8 :=
  [0, 0, 14, 0, 0x0A, 0, 0, 0, 0, 0] ++ cpuToLe16 freq ++ cpuToLe16 0x0080 ++ [0xD4, 0, 0, 0] ++ addr.toList

/-- What the radios get when `data->ps` is not `PS_DISABLED` -/
def markedPm (ps : Bool) (frame : List UInt8) : List UInt8 := if ps then frame.modify 1 (· ||| 0x10) else frame

/-! ### The packet in memory -/

variable {m : Mem UInt8} {n : Nat} {x : Monitored}

theorem length_hwsimRadiotapHdr (x : Monitored) : (hwsimRadiotapHdr x).length = 22 := by
  simp [hwsimRadiotapHdr, cpuToLe64, cpuToLe16]

theorem read_of_packet {p : List UInt8} (h : m.read 0 p.length = p) {i k : Nat} (hik : i + k ≤ p.length) :
    m.read i k = (p.drop i).take k := by
  have hdrop := Mem.drop_read m 0 (show i ≤ p.length by omega)
  rw [h, Nat.zero_add] at hdrop
  rw [hdrop, Mem.take_read m i (by omega)]

theorem read_header (h : m.read 0 (monitorRx x).length = monitorRx x) {i k : Nat} (hik : i + k ≤ 22) :
    m.read i k = ((hwsimRadiotapHdr x).drop i).take k := by
  have hlen := length_hwsimRadiotapHdr x
  have hle : i + k ≤ (monitorRx x).length := by
    rw [monitorRx, List.length_append]
    omega
  rw [read_of_packet h hle, monitorRx, List.drop_append_of_le_length (by omega),
    List.take_append_of_le_length (by rw [List.length_drop]; omega)]

theorem itLen_monitorRx (h : m.read 0 (monitorRx x).length = monitorRx x) : itLen m = 22 := by
  rw [itLen, le16ToCpu, read_header h (by decide)]
  rfl

theorem itPresent_monitorRx (h : m.read 0 (monitorRx x).length = monitorRx x) : itPresent m = 0x0F := by
  rw [itPresent, le32ToCpu, read_header h (by decide)]
  rfl

theorem le16ToCpu_of_read {v : UInt16} {i : Nat} (h : m.read i 2 = cpuToLe16 v) : le16ToCpu m i = v.toNat := by
  rw [le16ToCpu, h]
  exact leValue_bytes16 v

/-- The flags always say 2 GHz. -/
theorem channelFromRthdr_monitorRx (h : m.read 0 (monitorRx x).length = monitorRx x) :
    channelFromRthdr (some m) = { band := .ghz2, centerFreq := x.freq.toNat } := by
  have hlocation : channelLocation (itPresent m) = 18 := by rw [itPresent_monitorRx h]; rfl
  have hfreq : le16ToCpu m 18 = x.freq.toNat := le16ToCpu_of_read (read_header h (by decide))
  have hflags : le16ToCpu m 20 = (0x0080 ||| if x.erpG then chanOfdm else chanCck : UInt16).toNat :=
    le16ToCpu_of_read (read_header h (by decide))
  have hband : (0x0080 ||| if x.erpG then chanOfdm else chanCck : UInt16).toNat &&& chan2Ghz ≠ 0 := by
    cases x.erpG <;> decide
  have hchannel : itPresent m &&& (1 <<< radiotapChannel) ≠ 0 := by rw [itPresent_monitorRx h]; decide
  simp only [channelFromRthdr, hlocation, if_pos hchannel, hfreq, Nat.reduceAdd, hflags, if_pos hband]

theorem pull_monitorRx (h : m.read 0 (monitorRx x).length = monitorRx x) (hne : x.frame ≠ []) :
    rtHeaderOf m (monitorRx x).length = some m ∧ pull m (monitorRx x).length = (m.offset 22, x.frame.length) ∧
      (m.offset 22).read 0 x.frame.length = x.frame := by
  have hlen : (monitorRx x).length = 22 + x.frame.length := by
    rw [monitorRx, List.length_append, length_hwsimRadiotapHdr]
  have hpos := List.length_pos_iff.2 hne
  have hlt : itLen m < (monitorRx x).length := by
    rw [itLen_monitorRx h]
    omega
  refine ⟨if_pos hlt, ?_, ?_⟩
  · rw [pull, if_pos hlt, itLen_monitorRx h, hlen, Nat.add_sub_cancel_left]
  · have hread := read_of_packet h (i := 22) (k := x.frame.length) (by omega)
    rw [Mem.read_offset, hread, monitorRx, List.drop_left' (length_hwsimRadiotapHdr x), List.take_length]

theorem read_setPm (frame : Mem UInt8) (len : Nat) :
    (setPm frame).read 0 len = (frame.read 0 len).modify 1 (· ||| 0x10) := by
  refine List.ext_getElem (by simp) fun i h₁ h₂ => ?_
  rw [Mem.getElem_read, List.getElem_modify, Mem.getElem_read, Nat.zero_add]
  by_cases hi : 1 = i
  · subst hi
    rw [if_pos rfl]
    exact Mem.set_self ..
  · rw [if_neg hi]
    exact Mem.set_of_ne _ _ (Ne.symm hi)

/-! ### Acknowledgements -/

theorem forall_uint8 {P : UInt8 → Prop} (h : ∀ n : Fin 256, P (UInt8.ofNat n)) (b : UInt8) : P b := by
  have hb := h ⟨b.toNat, b.toNat_lt⟩
  rwa [UInt8.ofNat_toNat] at hb

theorem typeSubtypeOf_ack (b : UInt8) : typeSubtypeOf b = frameTypeAck ↔ b.toNat &&& 0xfc = 0xd4 :=
  forall_uint8 (P := fun b => typeSubtypeOf b = frameTypeAck ↔ b.toNat &&& 0xfc = 0xd4) (by decide +kernel) b

theorem radiotapLen_eq (m : Mem UInt8) : radiotapLen.value m = itLen m := by
  have hvalue : itLen m = (m 2).toNat + 256 * ((m 3).toNat + 256 * 0) := rfl
  have hread : radiotapLen.value m = (m 2).toNat + (m 3).toNat <<< 8 := rfl
  rw [hvalue, hread, Nat.shiftLeft_eq]
  omega

/-- The cross_injector and the driver take the same packets for acknowledgements. -/
theorem isAck_agrees (m : Mem UInt8) (size : Int) :
    (WlanxVms.isAck size).value m = isAck (m.offset (itLen m)) := by
  have hread : (WlanxVms.isAck size).value m = decide (typeSubtypeOf (m (radiotapLen.value m)) = frameTypeAck) := rfl
  rw [hread, isAck_eq, radiotapLen_eq]
  exact decide_eq_decide.2 (typeSubtypeOf_ack _)

/-! ### From one machine to the other -/

/-- What a packet means to another machine: it is an acknowledgement only if the frame is one, and written to the monitor
interface it brings the frame to each radio for which there is memory, on the frequency of the transmission. -/
structure Crosses (x : Monitored) (m : Mem UInt8) : Prop where
  ack : ∀ size, (WlanxVms.isAck size).value m = true ↔ ∃ b rest, x.frame = b :: rest ∧ b.toNat &&& 0xfc = 0xd4
  received : ∀ ps pagedRx radios, (hwsimMonXmit ps pagedRx m (monitorRx x).length radios).received =
    (copies pagedRx m (monitorRx x).length radios).map fun r =>
      { radio := r.1.idx, chan := { band := .ghz2, centerFreq := x.freq.toNat }, bytes := markedPm ps x.frame }

theorem received_monitorRx (hne : x.frame ≠ []) (h : m.read 0 (monitorRx x).length = monitorRx x) (ps pagedRx : Bool)
    (radios : List (HwsimData × Allocs)) : (hwsimMonXmit ps pagedRx m (monitorRx x).length radios).received =
      (copies pagedRx m (monitorRx x).length radios).map fun r =>
        { radio := r.1.idx, chan := { band := .ghz2, centerFreq := x.freq.toNat }, bytes := markedPm ps x.frame } := by
  obtain ⟨hheader, hpull, hframe⟩ := pull_monitorRx h hne
  have hbytes : ((if ps then setPm (m.offset 22) else m.offset 22).read 0 x.frame.length) = markedPm ps x.frame := by
    cases ps with
    | false => exact hframe
    | true =>
      show (setPm (m.offset 22)).read 0 x.frame.length = x.frame.modify 1 (· ||| 0x10)
      rw [read_setPm, hframe]
  simp only [hwsimMonXmit, monXmit, copies, hheader, hpull, channelFromRthdr_monitorRx h]
  rw [received_loop, List.nil_append, hbytes]

theorem isAck_monitorRx (hne : x.frame ≠ []) (h : m.read 0 (monitorRx x).length = monitorRx x) (size : Int) :
    (WlanxVms.isAck size).value m = true ↔ ∃ b rest, x.frame = b :: rest ∧ b.toNat &&& 0xfc = 0xd4 := by
  obtain ⟨-, -, hframe⟩ := pull_monitorRx h hne
  obtain ⟨b, rest, hb⟩ := List.exists_cons_of_ne_nil hne
  have hfirst : m.offset 22 0 = b := by
    rw [hb, List.length_cons, Nat.add_comm, Mem.read_add, Mem.read_one] at hframe
    exact (List.cons.inj hframe).1
  rw [isAck_agrees, isAck_eq, itLen_monitorRx h, hfirst, decide_eq_true_iff, hb]
  constructor
  · exact fun hack => ⟨b, rest, rfl, hack⟩
  · rintro ⟨b', rest', hcons, hack⟩
    rwa [(List.cons.inj hcons).1]

theorem monitor_crosses (x : Monitored) (hne : x.frame ≠ []) (m : Mem UInt8)
    (h : m.read 0 (monitorRx x).length = monitorRx x) : Crosses x m :=
  ⟨isAck_monitorRx hne h, received_monitorRx hne h⟩

/-- A probe request on channel 36, which another machine's radio gets in the 2 GHz band -/
def probeOn5180 : Monitored := ⟨7, 60, true, 5180, [0x40, 0, 1, 2, 3]⟩

theorem monitor_crosses_probe :
    (hwsimMonXmit false false ((Mem.fill 0).write 0 (monitorRx probeOn5180)) (monitorRx probeOn5180).length
      [({ idx := 0, scanning := false, scanAddr := Vector.replicate 6 0, vifs := [] },
        { allocPage := false, devAllocSkb := false, skbCopy := true, linear := Mem.fill 0 })]).received =
      [{ radio := 0, chan := { band := .ghz2, centerFreq := 5180 }, bytes := [0x40, 0, 1, 2, 3] }] := by
  rw [(monitor_crosses probeOn5180 (by decide) ((Mem.fill 0).write 0 (monitorRx probeOn5180)) (by decide +kernel)).received]
  rfl

/-- The acknowledgement packets of the driver are what the cross_injector drops. -/
theorem isAck_monitorAck (freq : UInt16) (addr : MacAddr) (size : Int) (m : Mem UInt8)
    (h : m.read 0 (monitorAck freq addr).length = monitorAck freq addr) : (WlanxVms.isAck size).value m = true := by
  have hlen : (monitorAck freq addr).length = 24 := by simp [monitorAck, cpuToLe16, ethAlen]
  have hitLen : itLen m = 14 := by
    rw [itLen, le16ToCpu, read_of_packet h (by omega)]
    rfl
  have hfirst : m.read 14 1 = [0xD4] := by
    rw [read_of_packet h (by omega)]
    rfl
  have hbyte : m.offset 14 0 = 0xD4 := List.head_eq_of_cons_eq hfirst
  rw [isAck_agrees, hitLen, isAck_eq, hbyte]
  decide

end Hwsim
end WlanxVms
