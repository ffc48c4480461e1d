import WlanxVms.Radiotap

/-!
# Putting a radiotap header in front of a packet (`radiotap.c`)

`rtSetChannelHeader` and `rtAddChannelHeader` make a header with the channel only, the first in place and the
second in a new block. `rtToDefault` puts the default header in the place of the one that a packet has.
-/

namespace WlanxVms

def rtChannelHeaderSize : Nat := 12

def defaultChannelFlags : UInt32 := 0x00c0

structure HeapBlock where
  size : Nat
  mem : Mem UInt8

/-- The assignments to `hdr[0]`, …, `hdr[11]` -/
def rtSetChannelHeader (hdr : Mem UInt8) (freq : UInt32) : Mem UInt8 :=
  hdr.write 0 [
    0, 0,
    12, 0,
    0x08, 0, 0, 0,
    (freq &&& 0x00FF).toUInt8, ((freq / 256) &&& 0x00FF).toUInt8,
    (defaultChannelFlags &&& 0x00FF).toUInt8, ((defaultChannelFlags / 256) &&& 0x00FF).toUInt8]

/-- `rt_add_channel_header`; `newData` is what `malloc` answers. The size of the block is computed with 32 bits. -/
def rtAddChannelHeader (data : Mem UInt8) (dataLen freq : UInt32) (newData : Option (Mem UInt8)) : Option HeapBlock :=
  let hdr : List UInt8 := [
    0, 0,
    12, 0,
    0x08, 0, 0, 0,
    (freq &&& 0x00FF).toUInt8, ((freq / 256) &&& 0x00FF).toUInt8,
    (defaultChannelFlags &&& 0x00FF).toUInt8, ((defaultChannelFlags / 256) &&& 0x00FF).toUInt8]
  newData.map fun mem =>
    { size := (dataLen + 12).toNat, mem := (mem.write 0 hdr).write rtChannelHeaderSize (data.read 0 dataLen.toNat) }

/-! ### The channel header -/

/-- A header of `RT_CHANNEL_HEADER_SIZE` bytes from which the driver takes the frequency, with the band it is in -/
structure Selects (hdr : Mem UInt8) (freq : UInt32) : Prop where
  len : itLen hdr = rtChannelHeaderSize
  centerFreq : (channelFromRthdr (some hdr)).centerFreq = freq.toNat
  ghz2 : freq.toNat < 3000 → (channelFromRthdr (some hdr)).band = .ghz2
  ghz5 : 5000 ≤ freq.toNat → (channelFromRthdr (some hdr)).band = .ghz5

/-- The two functions write the same header, which selects the frequency, and leave the packet behind it as it is. -/
structure ChannelHeaders (hdr data : Mem UInt8) (dataLen freq : UInt32) (newData : Option (Mem UInt8)) : Prop where
  set : Selects (rtSetChannelHeader hdr freq) freq
  behind : ∀ i, rtChannelHeaderSize ≤ i → rtSetChannelHeader hdr freq i = hdr i
  add : ∀ b, rtAddChannelHeader data dataLen freq newData = some b →
    rtChannelHeaderSize + dataLen.toNat ≤ b.size ∧ Selects b.mem freq ∧
      b.mem.read 0 rtChannelHeaderSize = (rtSetChannelHeader hdr freq).read 0 rtChannelHeaderSize ∧
      b.mem.read rtChannelHeaderSize dataLen.toNat = data.read 0 dataLen.toNat

def rtSetDefaults : RtData :=
  { flags := 0, rate := 108, antenna := 1, frequency := 2437, channelFlags := 0x00c0, tsftTime := 0 }

/-- `struct item_t`; the buffer may be `NULL`. -/
structure Item where
  size : UInt32
  buffer : Option (Mem UInt8)

/-- `payload` and `payload_size`, with the low byte of the header's length only; `none` is an access through `NULL`. -/
def rtGetPayload (item : Item) : Option (Mem UInt8 × UInt32) :=
  item.buffer.map fun buffer => (buffer.offset (buffer 2).toNat, item.size - (buffer 2).toUInt32)

/-- `rt_to_default`; `newBuffer` is what `malloc` answers, and `none` is undefined behaviour: the block is shorter
than the header, or `i` leaves the range of `int`. -/
def rtToDefault (item : Item) (newBuffer : Option (Mem UInt8)) : Option Item :=
  (rtGetPayload item).bind fun (payload, payloadSize) =>
    let defaultHdr := rtMakeHeaderFromData rtSetDefaults (Mem.fill 0)
    let total := (payloadSize + 23).toNat
    match newBuffer with
    | none => some { item with buffer := none }
    | some mem =>
      if rtHeaderSize ≤ total ∧ total < 2 ^ 31 then
        -- the size of the item stays
        some { item with buffer := some ((mem.write 0 (defaultHdr.read 0 rtHeaderSize)).write rtHeaderSize
          (payload.read 0 (total - rtHeaderSize))) }
      else none

variable {hdr data : Mem UInt8} {dataLen freq : UInt32} {newData : Option (Mem UInt8)} {b : HeapBlock}

theorem leValue_low16 (v : UInt32) :
    leValue [(v &&& 0x00FF).toUInt8, ((v / 256) &&& 0x00FF).toUInt8] = v.toNat % 65536 := by
  have hlow : (v &&& 0x00FF).toNat = v.toNat % 256 := by
    rw [UInt32.toNat_and]
    exact Nat.and_two_pow_sub_one_eq_mod _ 8
  have hhigh : ((v / 256) &&& 0x00FF).toNat = v.toNat / 256 % 256 := by
    rw [UInt32.toNat_and, UInt32.toNat_div]
    exact Nat.and_two_pow_sub_one_eq_mod _ 8
  rw [leValue, leValue, leValue, UInt32.toNat_toUInt8, UInt32.toNat_toUInt8, hlow, hhigh]
  omega

/-- Whatever the frequency, the band is the one of `DEFAULT_CHANNEL_FLAGS`. -/
theorem channelFromRthdr_channelHeader (hread : hdr.read 0 rtChannelHeaderSize =
      (rtSetChannelHeader data freq).read 0 rtChannelHeaderSize) :
    itLen hdr = rtChannelHeaderSize ∧
      channelFromRthdr (some hdr) = { band := .ghz2, centerFreq := freq.toNat % 65536 } := by
  -- each field is a part of the first twelve bytes
  have hpart : ∀ off len, off + len ≤ rtChannelHeaderSize →
      hdr.read off len = (rtSetChannelHeader data freq).read off len := by
    intro off len hle
    have hdrop := congrArg (fun bs => (bs.drop off).take len) hread
    simp only [Mem.drop_read _ _ (show off ≤ rtChannelHeaderSize by omega), Nat.zero_add,
      Mem.take_read _ _ (show len ≤ rtChannelHeaderSize - off by omega)] at hdrop
    exact hdrop
  have hlen : itLen hdr = rtChannelHeaderSize := by
    rw [itLen, le16ToCpu, hpart 2 2 (by decide)]
    rfl
  have hpresent : itPresent hdr = 8 := by
    rw [itPresent, le32ToCpu, hpart 4 4 (by decide)]
    rfl
  have hfreq : le16ToCpu hdr 8 = freq.toNat % 65536 := by
    rw [le16ToCpu, hpart 8 2 (by decide)]
    exact leValue_low16 freq
  have hflags : le16ToCpu hdr 10 = 0x00c0 := by
    rw [le16ToCpu, hpart 10 2 (by decide)]
    rfl
  refine ⟨hlen, ?_⟩
  rw [channelFromRthdr, hpresent]
  show ({ centerFreq := le16ToCpu hdr 8, band := if le16ToCpu hdr 10 &&& chan2Ghz ≠ 0 then .ghz2 else .ghz5 } :
    Ieee80211Channel) = _
  rw [hfreq, hflags]
  rfl

theorem selects_iff (hfreq : freq.toNat ≤ 65535) (hread : hdr.read 0 rtChannelHeaderSize =
      (rtSetChannelHeader data freq).read 0 rtChannelHeaderSize) : Selects hdr freq ↔ freq.toNat < 5000 := by
  obtain ⟨hlen, hchan⟩ := channelFromRthdr_channelHeader hread
  rw [Nat.mod_eq_of_lt (by omega)] at hchan
  constructor
  · intro h
    by_contra hge
    have hband := h.ghz5 (Nat.not_lt.1 hge)
    rw [hchan] at hband
    cases hband
  · intro hlt
    exact ⟨hlen, by rw [hchan], fun _ => by rw [hchan], fun hge => absurd hlt (Nat.not_lt.2 hge)⟩

theorem read_rtAddChannelHeader (h : rtAddChannelHeader data dataLen freq newData = some b) (hdr : Mem UInt8) :
    b.size = (dataLen + 12).toNat ∧
      b.mem.read 0 rtChannelHeaderSize = (rtSetChannelHeader hdr freq).read 0 rtChannelHeaderSize ∧
      b.mem.read rtChannelHeaderSize dataLen.toNat = data.read 0 dataLen.toNat := by
  obtain ⟨mem, -, rfl⟩ := Option.map_eq_some_iff.1 h
  refine ⟨rfl, ?_, ?_⟩
  · have hbefore : 0 + rtChannelHeaderSize ≤ rtChannelHeaderSize := Nat.le_of_eq (Nat.zero_add _)
    exact (Mem.read_write_before hbefore).trans rfl
  · have hself := Mem.read_write_self (mem.write 0 [0, 0, 12, 0, 0x08, 0, 0, 0, (freq &&& 0x00FF).toUInt8,
      ((freq / 256) &&& 0x00FF).toUInt8, (defaultChannelFlags &&& 0x00FF).toUInt8,
      ((defaultChannelFlags / 256) &&& 0x00FF).toUInt8]) rtChannelHeaderSize (data.read 0 dataLen.toNat)
    rw [Mem.length_read] at hself
    exact hself

theorem fits_iff (dataLen : UInt32) :
    rtChannelHeaderSize + dataLen.toNat ≤ (dataLen + 12).toNat ↔ dataLen.toNat + 12 < 4294967296 := by
  have hlt := dataLen.toNat_lt
  rw [UInt32.toNat_add]
  simp only [rtChannelHeaderSize, UInt32.reduceToNat]
  omega

/-- For a frequency of 16 bits, both headers select its band exactly below 5000, and the second function has room for the
packet when its length and the header together fit 32 bits. -/
theorem channelHeaders_iff (hdr data : Mem UInt8) (dataLen freq : UInt32) (newData : Option (Mem UInt8))
    (hfreq : 1 ≤ freq.toNat ∧ freq.toNat ≤ 65535) : ChannelHeaders hdr data dataLen freq newData ↔
      freq.toNat < 5000 ∧ (newData ≠ none → dataLen.toNat + 12 < 4294967296) := by
  have hset : Selects (rtSetChannelHeader hdr freq) freq ↔ freq.toNat < 5000 :=
    selects_iff hfreq.2 (Eq.refl ((rtSetChannelHeader hdr freq).read 0 _))
  constructor
  · intro h
    refine ⟨hset.1 h.set, fun hne => ?_⟩
    obtain ⟨mem, rfl⟩ := Option.ne_none_iff_exists'.1 hne
    exact (fits_iff dataLen).1 (h.add _ rfl).1
  · rintro ⟨hlt, hfits⟩
    refine ⟨hset.2 hlt, fun i hi => Mem.write_after hi, fun b hb => ?_⟩
    obtain ⟨hsize, hhdr, hdata⟩ := read_rtAddChannelHeader hb hdr
    have hne : newData ≠ none := by
      rintro rfl
      cases hb
    refine ⟨?_, (selects_iff hfreq.2 hhdr).2 hlt, hhdr, hdata⟩
    rw [hsize]
    exact (fits_iff dataLen).2 (hfits hne)

theorem channelHeaders_iff_2437 : ChannelHeaders (Mem.fill 0) (Mem.fill 0) 60 2437 (some (Mem.fill 0)) ↔
    (2437 : UInt32).toNat < 5000 ∧
      ((some (Mem.fill 0) : Option (Mem UInt8)) ≠ none → (60 : UInt32).toNat + 12 < 4294967296) :=
  channelHeaders_iff _ _ _ _ _ (by decide)

/-- The channel of 5180 MHz is put into the band of 2 GHz. -/
theorem not_channelHeaders : ¬ ∀ (hdr data : Mem UInt8) (dataLen freq : UInt32) (newData : Option (Mem UInt8)),
    1 ≤ freq.toNat ∧ freq.toNat ≤ 65535 → ChannelHeaders hdr data dataLen freq newData := by
  intro h
  have hset := (h (Mem.fill 0) (Mem.fill 0) 60 5180 none (by decide)).set
  have hlt := (selects_iff (by decide) (Eq.refl ((rtSetChannelHeader (Mem.fill 0) 5180).read 0 _))).1 hset
  revert hlt
  decide

/-! ### The default header -/

namespace Item

def bytes (x : Item) : Option (List UInt8) := x.buffer.map fun buffer => buffer.read 0 x.size.toNat

def header (x : Item) : Option (List UInt8) := x.buffer.map fun buffer => buffer.read 0 rtHeaderSize

def payload (x : Item) : Option (List UInt8) := (rtGetPayload x).map fun p => p.1.read 0 p.2.toNat

end Item

/-- The bytes that `rt_set_defaults` and `rt_make_header_from_data` make -/
def defaultHeader : List UInt8 := (rtMakeHeaderFromData rtSetDefaults (Mem.fill 0)).read 0 rtHeaderSize

/-- `x'` is the item with the default header in the place of its own, and stays as it is from then on. -/
structure DefaultOf (buffer : Mem UInt8) (size : UInt32) (x' : Item) : Prop where
  newSize : x'.size.toNat = rtHeaderSize + (size.toNat - itLen buffer)
  header : x'.header = some defaultHeader
  payload : x'.payload = some (buffer.read (itLen buffer) (size.toNat - itLen buffer))
  again : ∀ mem, ∃ x'', rtToDefault x' (some mem) = some x'' ∧ x''.size = x'.size ∧ x''.bytes = x'.bytes

/-- Only the header is replaced, and the item is left alone when there is no memory. -/
structure ReplacesHeader (buffer : Mem UInt8) (size : UInt32) (newBuffer : Option (Mem UInt8)) : Prop where
  success : ∀ mem, newBuffer = some mem →
    ∃ x', rtToDefault { size, buffer := some buffer } newBuffer = some x' ∧ DefaultOf buffer size x'
  failure : newBuffer = none →
    rtToDefault { size, buffer := some buffer } newBuffer = some { size, buffer := some buffer }

variable {buffer mem : Mem UInt8} {size : UInt32} {newBuffer : Option (Mem UInt8)} {x x' : Item}

theorem size_rtToDefault (h : rtToDefault x newBuffer = some x') : x'.size = x.size := by
  obtain ⟨p, -, h⟩ := Option.bind_eq_some_iff.1 h
  cases newBuffer with
  | none => cases h; rfl
  | some mem =>
    obtain ⟨-, h⟩ := Option.ite_none_right_eq_some.1 h
    cases h; rfl

theorem byte_of_itLen (hlen : itLen buffer = rtHeaderSize) : buffer 2 = 23 := by
  have hbytes : (buffer 2).toNat + 256 * ((buffer 3).toNat + 256 * 0) = 23 := hlen
  have hlt := (buffer 2).toNat_lt
  have hlow : (buffer 2).toNat = 23 := by omega
  exact UInt8.toNat_inj.1 hlow

theorem rtGetPayload_23 (hbyte : buffer 2 = 23) (hle : rtHeaderSize ≤ size.toNat) :
    rtGetPayload { size, buffer := some buffer } = some (buffer.offset rtHeaderSize, size - 23) ∧
      (size - 23).toNat = size.toNat - rtHeaderSize := by
  have h23 : (23 : UInt32) ≤ size := UInt32.le_iff_toNat_le.2 hle
  refine ⟨?_, UInt32.toNat_sub_of_le _ _ h23⟩
  show some (buffer.offset (buffer 2).toNat, size - (buffer 2).toUInt32) = _
  rw [hbyte]
  rfl

theorem rtToDefault_23 (hbyte : buffer 2 = 23) (hle : rtHeaderSize ≤ size.toNat) (hlt : size.toNat < 2 ^ 31)
    (mem : Mem UInt8) : ∃ buffer', rtToDefault { size, buffer := some buffer } (some mem) =
        some { size, buffer := some buffer' } ∧ buffer'.read 0 rtHeaderSize = defaultHeader ∧
      buffer'.read rtHeaderSize (size.toNat - rtHeaderSize) = buffer.read rtHeaderSize (size.toNat - rtHeaderSize) := by
  obtain ⟨hpayload, hsize⟩ := rtGetPayload_23 hbyte hle
  have htotal : (size - 23 + 23).toNat = size.toNat := by rw [UInt32.sub_add_cancel]
  refine ⟨(mem.write 0 defaultHeader).write rtHeaderSize (buffer.read rtHeaderSize (size.toNat - rtHeaderSize)),
    ?_, ?_, ?_⟩
  · rw [rtToDefault, hpayload]
    show (if rtHeaderSize ≤ (size - 23 + 23).toNat ∧ (size - 23 + 23).toNat < 2 ^ 31 then some _ else none) = some _
    rw [htotal, if_pos ⟨hle, hlt⟩, Mem.read_offset]
    rfl
  · rw [Mem.read_write_before (Nat.le_of_eq (Nat.zero_add _))]
    exact Mem.read_write_self mem 0 defaultHeader
  · have hself := Mem.read_write_self (mem.write 0 defaultHeader) rtHeaderSize
      (buffer.read rtHeaderSize (size.toNat - rtHeaderSize))
    rw [Mem.length_read] at hself
    exact hself

theorem byte_of_defaultHeader (h : buffer.read 0 rtHeaderSize = defaultHeader) : buffer 2 = 23 :=
  congrArg (fun bs => bs.getD 2 0) h

theorem defaultOf_23 (hlen : itLen buffer = rtHeaderSize) (hle : rtHeaderSize ≤ size.toNat) (hlt : size.toNat < 2 ^ 31)
    (h : rtToDefault { size, buffer := some buffer } (some mem) = some x') : DefaultOf buffer size x' := by
  have hbyte := byte_of_itLen hlen
  obtain ⟨buffer', hto, hheader, hrest⟩ := rtToDefault_23 hbyte hle hlt mem
  rw [h] at hto
  cases hto
  have hbyte' := byte_of_defaultHeader hheader
  obtain ⟨hpayload, hsize⟩ := rtGetPayload_23 hbyte' hle
  refine ⟨?_, congrArg some hheader, ?_, fun again => ?_⟩
  · rw [hlen]
    show size.toNat = _
    omega
  · rw [Item.payload, hpayload, Option.map_some, hsize, Mem.read_offset, hlen]
    exact congrArg some hrest
  · obtain ⟨buffer'', hto', hheader', hrest'⟩ := rtToDefault_23 hbyte' hle hlt again
    refine ⟨_, hto', rfl, congrArg some ?_⟩
    have hsplit : size.toNat = rtHeaderSize + (size.toNat - rtHeaderSize) := by omega
    show buffer''.read 0 size.toNat = buffer'.read 0 size.toNat
    rw [hsplit, Mem.read_add, Mem.read_add, Nat.zero_add, hheader, hheader', hrest']

/-- The header alone is replaced exactly when the new buffer is allocated, the old header is as long as the new one
and the index of the loop can count the bytes. -/
theorem replacesHeader_iff (buffer : Mem UInt8) (size : UInt32) (newBuffer : Option (Mem UInt8))
    (hle : itLen buffer ≤ size.toNat) : ReplacesHeader buffer size newBuffer ↔
      newBuffer ≠ none ∧ itLen buffer = rtHeaderSize ∧ size.toNat < 2 ^ 31 := by
  constructor
  · rintro ⟨hsuccess, hfailure⟩
    cases newBuffer with
    | none =>
      -- the packet is lost
      have hlost : some ({ size, buffer := none } : Item) = some { size, buffer := some buffer } := hfailure rfl
      cases hlost
    | some mem =>
      obtain ⟨x', hto, hdefault⟩ := hsuccess mem rfl
      have hsize := hdefault.newSize
      rw [size_rtToDefault hto] at hsize
      have hlen : itLen buffer = rtHeaderSize := by
        show _ = 23
        change size.toNat = 23 + _ at hsize
        omega
      refine ⟨nofun, hlen, ?_⟩
      rw [rtToDefault, (rtGetPayload_23 (byte_of_itLen hlen) (hlen ▸ hle)).1] at hto
      have hlt := (Option.ite_none_right_eq_some.1 hto).1.2
      rw [UInt32.sub_add_cancel] at hlt
      exact hlt
  · rintro ⟨hne, hlen, hlt⟩
    obtain ⟨mem, rfl⟩ := Option.ne_none_iff_exists'.1 hne
    obtain ⟨buffer', hto, -⟩ := rtToDefault_23 (byte_of_itLen hlen) (hlen ▸ hle) hlt mem
    exact ⟨fun _ _ => ⟨_, hto, defaultOf_23 hlen (hlen ▸ hle) hlt hto⟩, fun hnone => nomatch hnone⟩

theorem replacesHeader_iff_23 :
    ReplacesHeader ((Mem.fill 0).write 0 [0, 0, 23, 0]) 60 (some (Mem.fill 0)) ↔
      (some (Mem.fill 0) : Option (Mem UInt8)) ≠ none ∧
        itLen ((Mem.fill 0).write 0 [0, 0, 23, 0]) = rtHeaderSize ∧ (60 : UInt32).toNat < 2 ^ 31 :=
  replacesHeader_iff _ _ _ (by decide)

/-- A header of 8 bytes: the new buffer has 75 bytes, and the item still says 60. -/
theorem not_replacesHeader : ¬ ∀ (buffer : Mem UInt8) (size : UInt32) (newBuffer : Option (Mem UInt8)),
    itLen buffer ≤ size.toNat → ReplacesHeader buffer size newBuffer := by
  intro h
  obtain ⟨x', hto, hdefault⟩ :=
    (h ((Mem.fill 0).write 0 [0, 0, 8, 0]) 60 (some (Mem.fill 0)) (by decide)).success _ rfl
  have hsize := hdefault.newSize
  rw [size_rtToDefault hto] at hsize
  revert hsize
  decide

end WlanxVms
