import WlanxVms.Lib.Mem
import WlanxVms.Lib.Word

/-!
# Radiotap headers (`radiotap.c`, `mac80211_hwsim.c`)

`rtMakeHeaderFromData` is the encoder of the cross_injector and `channelFromRthdr` the decoder of the
modified driver. The bits of `it_present` and of the channel flags are those of the kernel headers.
-/

namespace WlanxVms

/-! ### The cross_injector -/

def rtHeaderSize : Nat := 23

/-- `struct rt_data_t` -/
structure RtData where
  flags : UInt8
  rate : UInt8
  antenna : UInt8
  frequency : UInt16
  channelFlags : UInt16
  tsftTime : UInt64

def byteOfU64 : Nat → UInt64 → UInt8
  | 0, u64 => (u64 &&& 0xFF).toUInt8
  | i + 1, u64 => byteOfU64 i (u64 / 256)

/-- The assignments to `hdr[0]`, …, `hdr[22]` -/
def rtMakeHeaderFromData (data : RtData) (hdr : Mem UInt8) : Mem UInt8 :=
  hdr.write 0 [
    0, 0, 23, 0,
    0x0F, 0x08, 0, 0,
    byteOfU64 0 data.tsftTime, byteOfU64 1 data.tsftTime, byteOfU64 2 data.tsftTime, byteOfU64 3 data.tsftTime,
    byteOfU64 4 data.tsftTime, byteOfU64 5 data.tsftTime, byteOfU64 6 data.tsftTime, byteOfU64 7 data.tsftTime,
    data.flags,
    data.rate,
    (data.frequency &&& 0x00FF).toUInt8, ((data.frequency / 256) &&& 0x00FF).toUInt8,
    (data.channelFlags &&& 0x00FF).toUInt8, ((data.channelFlags / 256) &&& 0x00FF).toUInt8,
    data.antenna]

/-! ### The driver -/

inductive Nl80211Band where
  | ghz2 | ghz5
deriving DecidableEq

/-- The fields of `struct ieee80211_channel` that the driver sets -/
structure Ieee80211Channel where
  band : Nl80211Band
  centerFreq : Nat
deriving DecidableEq

/-- `IEEE80211_RADIOTAP_TSFT` to `IEEE80211_RADIOTAP_CHANNEL` -/
def radiotapTsft : Nat := 0
def radiotapFlags : Nat := 1
def radiotapRate : Nat := 2
def radiotapChannel : Nat := 3

/-- `IEEE80211_CHAN_2GHZ` -/
def chan2Ghz : Nat := 0x0080

def le16ToCpu (buff : Mem UInt8) (i : Nat) : Nat := leValue (buff.read i 2)

def le32ToCpu (buff : Mem UInt8) (i : Nat) : Nat := leValue (buff.read i 4)

/-- `it_len` and `it_present` of `struct ieee80211_radiotap_header` -/
def itLen (hdr : Mem UInt8) : Nat := le16ToCpu hdr 2
def itPresent (hdr : Mem UInt8) : Nat := le32ToCpu hdr 4

/-- `channel_location`, which begins on a 16 bit boundary -/
def channelLocation (itPresent : Nat) : Nat :=
  let location := 8
  let location := if itPresent &&& (1 <<< radiotapTsft) ≠ 0 then location + 8 else location
  let location := if itPresent &&& (1 <<< radiotapFlags) ≠ 0 then location + 1 else location
  let location := if itPresent &&& (1 <<< radiotapRate) ≠ 0 then location + 1 else location
  if location % 2 ≠ 0 then location + 1 else location

def channelFromRthdr : Option (Mem UInt8) → Ieee80211Channel
  | none => { band := .ghz2, centerFreq := 2437 }
  | some hdr =>
    let location := channelLocation (itPresent hdr)
    if itPresent hdr &&& (1 <<< radiotapChannel) ≠ 0 then
      let flags := le16ToCpu hdr (location + 2)
      { centerFreq := le16ToCpu hdr location, band := if flags &&& chan2Ghz ≠ 0 then .ghz2 else .ghz5 }
    else { band := .ghz2, centerFreq := 2437 }

/-! ### The driver reads what the cross_injector wrote -/

theorem toNat_byteOfU64_zero (v : UInt64) : (byteOfU64 0 v).toNat = v.toNat % 256 := by
  have h : (v &&& 0xFF).toNat = v.toNat % 256 := by
    rw [UInt64.toNat_and]; exact Nat.and_two_pow_sub_one_eq_mod _ 8
  rw [byteOfU64, UInt64.toNat_toUInt8, h]
  omega

theorem leValue_byteOfU64 (k : Nat) (v : UInt64) :
    leValue ((List.range k).map fun i => byteOfU64 i v) = v.toNat % 256 ^ k := by
  induction k generalizing v with
  | zero => simp [leValue, Nat.mod_one]
  | succ k ih =>
    have hdiv : (v / 256).toNat = v.toNat / 256 := UInt64.toNat_div v 256
    have hrest := ih (v / 256)
    rw [List.range_succ_eq_map, List.map_cons, List.map_map, leValue, toNat_byteOfU64_zero]
    show v.toNat % 256 + 256 * leValue ((List.range k).map fun i => byteOfU64 i (v / 256)) = _
    rw [hrest, hdiv, Nat.pow_succ', Nat.mod_mul]

theorem leValue_bytes16 (v : UInt16) :
    leValue [(v &&& 0x00FF).toUInt8, ((v / 256) &&& 0x00FF).toUInt8] = v.toNat := by
  have hlow : (v &&& 0x00FF).toNat = v.toNat % 256 := by
    rw [UInt16.toNat_and]; exact Nat.and_two_pow_sub_one_eq_mod _ 8
  have hhigh : ((v / 256) &&& 0x00FF).toNat = v.toNat / 256 % 256 := by
    rw [UInt16.toNat_and, UInt16.toNat_div]; exact Nat.and_two_pow_sub_one_eq_mod _ 8
  have hlt := v.toNat_lt
  rw [leValue, leValue, leValue, UInt16.toNat_toUInt8, UInt16.toNat_toUInt8, hlow, hhigh]
  omega

variable (data : RtData) (hdr : Mem UInt8)

theorem itLen_rtMakeHeader : itLen (rtMakeHeaderFromData data hdr) = rtHeaderSize := by
  show leValue [23, 0] = rtHeaderSize
  decide

theorem itPresent_rtMakeHeader : itPresent (rtMakeHeaderFromData data hdr) = 0x080F := by
  show leValue [0x0F, 0x08, 0, 0] = 0x080F
  decide

theorem frequency_rtMakeHeader : le16ToCpu (rtMakeHeaderFromData data hdr) 18 = data.frequency.toNat :=
  leValue_bytes16 data.frequency

theorem channelFlags_rtMakeHeader : le16ToCpu (rtMakeHeaderFromData data hdr) 20 = data.channelFlags.toNat :=
  leValue_bytes16 data.channelFlags

theorem tsft_rtMakeHeader : leValue ((rtMakeHeaderFromData data hdr).read 8 8) = data.tsftTime.toNat := by
  have h := leValue_byteOfU64 8 data.tsftTime
  have hlt : data.tsftTime.toNat < 256 ^ 8 := data.tsftTime.toNat_lt
  rw [Nat.mod_eq_of_lt hlt] at h
  exact h

/-- The header of 23 bytes that the cross_injector makes is read back field by field by the driver. -/
theorem channelFromRthdr_rtMakeHeader :
    itLen (rtMakeHeaderFromData data hdr) = rtHeaderSize ∧
    channelLocation (itPresent (rtMakeHeaderFromData data hdr)) = 18 ∧
    (channelFromRthdr (some (rtMakeHeaderFromData data hdr))).centerFreq = data.frequency.toNat ∧
    ((channelFromRthdr (some (rtMakeHeaderFromData data hdr))).band = .ghz2 ↔
      data.channelFlags.toNat &&& chan2Ghz ≠ 0) ∧
    leValue ((rtMakeHeaderFromData data hdr).read 8 8) = data.tsftTime.toNat ∧
    ∀ i, rtHeaderSize ≤ i → rtMakeHeaderFromData data hdr i = hdr i := by
  have hloc : channelLocation (itPresent (rtMakeHeaderFromData data hdr)) = 18 := by
    rw [itPresent_rtMakeHeader]; rfl
  have hchan : channelFromRthdr (some (rtMakeHeaderFromData data hdr)) =
      { centerFreq := data.frequency.toNat,
        band := if data.channelFlags.toNat &&& chan2Ghz ≠ 0 then .ghz2 else .ghz5 } := by
    simp only [channelFromRthdr, hloc, Nat.reduceAdd, frequency_rtMakeHeader, channelFlags_rtMakeHeader]
    rw [itPresent_rtMakeHeader]; rfl
  refine ⟨itLen_rtMakeHeader .., hloc, by rw [hchan], ?_, tsft_rtMakeHeader .., ?_⟩
  · rw [hchan]
    by_cases hbit : data.channelFlags.toNat &&& chan2Ghz = 0
    · simp [hbit]
    · simp [hbit]
  · intro i hi
    exact Mem.write_after hi

end WlanxVms
