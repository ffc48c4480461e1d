import WlanxVms.Frame

/-!
# Where the data of a data frame begins (`pkt.c`)

The MAC header of a data frame has 24 bytes, 6 more for the fourth address and 2 more for the QoS field.
`pkt_is_data` accepts all these frames and always skips 24 bytes. Behind it `pkt_get_ether_type_string` takes the
hop limit of an IPv6 header for its next header field, and calls the protocols IPv6 and "no next header" EAP.
-/

namespace WlanxVms
namespace Bcaster

/-! ### The frame and its data -/

/-- The length of the MAC header of a data frame, from the two bytes of its frame control field -/
def macHeaderLen (fcField flags : UInt8) : Nat :=
  24 + (if flags &&& 0x03 = 0x03 then 6 else 0) + (if fcField &&& 0x80 = 0x80 then 2 else 0)

def dataStart (pkt : Mem UInt8) : Nat :=
  radiotapLen.value pkt + macHeaderLen (fcField pkt) (pkt (radiotapLen.value pkt + 1))

/-- What is behind the MAC header of a packet of `size` bytes -/
def frameData (pkt : Mem UInt8) (size : Nat) : List UInt8 := pkt.read (dataStart pkt) (size - dataStart pkt)

/-- The type in the LLC header -/
def snapOf (data : List UInt8) : Option Nat :=
  if 8 ≤ data.length then some (beValue ((data.drop 6).take 2)) else none

/-- The protocol field of an IPv4 header, the next header field of an IPv6 header -/
def ipProtocolOf (data : List UInt8) : Option UInt8 :=
  if snapOf data = some snapTypeIpv4 then data[17]? else if snapOf data = some snapTypeIpv6 then data[14]? else none

/-- The types of an LLC header that have a text of their own -/
inductive LlcType where
  | ipv4 | ipv6 | arp | eap | other
deriving DecidableEq

def LlcType.ofSnap (snap : Nat) : LlcType :=
  if snap = 0x0800 then ipv4 else if snap = 0x86DD then ipv6 else if snap = 0x0806 then arp
  else if snap = 0x888E then eap else other

/-- The type that a printed text tells -/
def LlcType.ofText (text : String) : Option LlcType :=
  if text = "IPv4" then some ipv4 else if text = "IPv6" then some ipv6 else if text = "ARP" then some arp
  else if text = "EAP" then some eap else if text = "TYPE?" then some other else none

/-- The protocols above IP that have a text of their own -/
inductive IpProtocol where
  | icmpv4 | igmpv4 | tcp | udp | ipv6 | routing | rsvp | icmpv6 | noNextHeader | other
deriving DecidableEq

namespace IpProtocol

/-- The protocol numbers -/
def ofByte (b : UInt8) : IpProtocol :=
  if b = 1 then icmpv4 else if b = 2 then igmpv4 else if b = 6 then tcp else if b = 17 then udp else if b = 41 then ipv6
  else if b = 43 then routing else if b = 46 then rsvp else if b = 58 then icmpv6 else if b = 59 then noNextHeader else other

/-- The protocol that a printed text tells, with the spelling of the printer; EAP is none. -/
def ofText (text : String) : Option IpProtocol :=
  if text = "ICPMv4" then some icmpv4 else if text = "IGMPv4" then some igmpv4 else if text = "TCP" then some tcp
  else if text = "UDP" then some udp else if text = "IPv6" then some ipv6 else if text = "ROUTING" then some routing
  else if text = "RSVP" then some rsvp else if text = "ICMPv6" then some icmpv6 else if text = "NONE" then some noNextHeader
  else if text = "TYPE?" then some other else none

end IpProtocol

/-! ### What the functions make of it -/

/-- A data frame in a packet of `size` bytes, with its whole MAC header -/
structure IsDataFrame (pkt : Mem UInt8) (size : Nat) : Prop where
  data : ((pktIsData size).value pkt).1 = true
  header : dataStart pkt ≤ size
  size : size < 2147483648

/-- `pkt_is_data` finds the data of the frame, so that its type and protocol are reported. -/
structure FindsData (pkt : Mem UInt8) (size : Nat) : Prop where
  start : ((pktIsData size).value pkt).2.1 = dataStart pkt
  length : ((pktIsData size).value pkt).2.2 = (size - dataStart pkt : Nat)
  snap : ∀ snap, snapOf (frameData pkt size) = some snap →
    LlcType.ofText (((pktGetLlcTypeString ((pktIsData size).value pkt).2.2).at ((pktIsData size).value pkt).2.1).value pkt) =
      some (.ofSnap snap)
  protocol : ∀ protocol, ipProtocolOf (frameData pkt size) = some protocol →
    (((pktGetEtherTypeString ((pktIsData size).value pkt).2.2).at ((pktIsData size).value pkt).2.1).value pkt).bind
      IpProtocol.ofText = some (.ofByte protocol)

/-- `DATA` to `DATA_CF_ACK_CF_POLL` -/
def frameTypesPlainData : List UInt8 := [0x20, 0x21, 0x22, 0x23]

/-- IPv6 in IP, and no next header -/
def misnamed : List UInt8 := [41, 59]

/-- A plain frame with three addresses. The protocol of IPv4 is not one that is called EAP; the hop limit of an IPv6 header
is not the number of one, and stands for the same protocol as the next header field. -/
structure PlainData (pkt : Mem UInt8) (size : Nat) : Prop where
  subtype : ((pktGetFrameControl size).value pkt).typeSubtype ∈ frameTypesPlainData
  addresses : ¬(((pktGetFrameControl size).value pkt).toDS = true ∧ ((pktGetFrameControl size).value pkt).fromDS = true)
  protocol : snapOf (frameData pkt size) = some snapTypeIpv4 → 18 ≤ (frameData pkt size).length →
    pkt (dataStart pkt + 17) ∉ misnamed
  hopLimit : snapOf (frameData pkt size) = some snapTypeIpv6 → 15 ≤ (frameData pkt size).length →
    pkt (dataStart pkt + 15) ∉ misnamed ∧
      IpProtocol.ofByte (pkt (dataStart pkt + 15)) = IpProtocol.ofByte (pkt (dataStart pkt + 14))

variable {pkt : Mem UInt8} {size : Nat}

/-! ### The frame control field -/

theorem forall_byte {P : UInt8 → Prop} (h : ∀ n : Fin 256, P (UInt8.ofNat n)) (b : UInt8) : P b := by
  have hb := h ⟨b.toNat, b.toNat_lt⟩
  rwa [UInt8.ofNat_toNat] at hb

theorem qos_iff {b : UInt8} : typeSubtypeOf b ∈ frameTypesData → (b &&& 0x80 = 0x80 ↔ typeSubtypeOf b ∉ frameTypesPlainData) := by
  refine forall_byte (P := fun b => typeSubtypeOf b ∈ frameTypesData → (b &&& 0x80 = 0x80 ↔ typeSubtypeOf b ∉ frameTypesPlainData)) ?_ b
  decide +kernel

theorem ds_iff {b : UInt8} : b &&& 0x03 = 0x03 ↔ getb b 0 = true ∧ getb b 1 = true := by
  refine forall_byte (P := fun b => b &&& 0x03 = 0x03 ↔ getb b 0 = true ∧ getb b 1 = true) ?_ b
  decide +kernel

theorem isData_iff (size : Int) : ((pktIsData size).value pkt).1 = true ↔ typeSubtypeOf (fcField pkt) ∈ frameTypesData :=
  decide_eq_true_iff

/-- Only a plain frame with three addresses has a MAC header of 24 bytes. -/
theorem dataStart_eq_iff (size : Int) (hdata : ((pktIsData size).value pkt).1 = true) :
    dataStart pkt = radiotapLen.value pkt + 24 ↔
      ((pktGetFrameControl size).value pkt).typeSubtype ∈ frameTypesPlainData ∧
        ¬(((pktGetFrameControl size).value pkt).toDS = true ∧ ((pktGetFrameControl size).value pkt).fromDS = true) := by
  have hqos := qos_iff ((isData_iff size).1 hdata)
  have hds := ds_iff (b := pkt (radiotapLen.value pkt + 1))
  show _ ↔ typeSubtypeOf (fcField pkt) ∈ frameTypesPlainData ∧
    ¬(getb (pkt (radiotapLen.value pkt + 1)) 0 = true ∧ getb (pkt (radiotapLen.value pkt + 1)) 1 = true)
  rw [← hds, ← not_iff_comm.1 hqos.symm, dataStart, macHeaderLen]
  split_ifs with h4 hq hq <;> simp [h4, hq]

/-! ### The texts -/

theorem ofText_llcTypeString (snap : Nat) : LlcType.ofText (llcTypeString snap) = some (.ofSnap snap) := by
  unfold llcTypeString LlcType.ofSnap snapTypeIpv4 snapTypeIpv6 snapTypeArp snapTypeEap
  split_ifs <;> rfl

theorem ofText_etherTypeString (b : UInt8) :
    IpProtocol.ofText (etherTypeString b) = if b ∈ misnamed then none else some (.ofByte b) := by
  refine forall_byte (P := fun b => IpProtocol.ofText (etherTypeString b) =
    if b ∈ misnamed then none else some (.ofByte b)) ?_ b
  decide +kernel

theorem tells_iff {b p : UInt8} : IpProtocol.ofText (etherTypeString b) = some (.ofByte p) ↔
    b ∉ misnamed ∧ IpProtocol.ofByte b = IpProtocol.ofByte p := by
  rw [ofText_etherTypeString]
  split
  · next h => exact iff_of_false nofun fun h' => h'.1 h
  · next h => rw [Option.some_inj, and_iff_right h]

/-! ### The data behind the header -/

theorem length_frameData (pkt : Mem UInt8) (size : Nat) : (frameData pkt size).length = size - dataStart pkt := Mem.length_read ..

theorem getElem?_frameData {i : Nat} (h : i < (frameData pkt size).length) :
    (frameData pkt size)[i]? = some (pkt (dataStart pkt + i)) := by
  rw [List.getElem?_eq_getElem h]
  exact congrArg some (Mem.getElem_read ..)

theorem snapType_eq {snap : Nat} (h : snapOf (frameData pkt size) = some snap) :
    snapType.value (pkt.offset (dataStart pkt)) = snap := by
  obtain ⟨hlen, h⟩ := Option.ite_none_right_eq_some.1 h
  obtain rfl := Option.some.inj h
  have h7 : 8 ≤ size - dataStart pkt := by rwa [length_frameData] at hlen
  have hbytes : ((frameData pkt size).drop 6).take 2 = [pkt (dataStart pkt + 6), pkt (dataStart pkt + 7)] := by
    rw [frameData, Mem.drop_read _ _ (by omega), Mem.take_read _ _ (by omega)]
    rfl
  have hhi := (pkt (dataStart pkt + 6)).toNat_lt
  have hlo := (pkt (dataStart pkt + 7)).toNat_lt
  rw [hbytes]
  show u16 (((pkt (dataStart pkt + 6)).toNat <<< 8) + (pkt (dataStart pkt + 7)).toNat) =
    (0 * 256 + (pkt (dataStart pkt + 6)).toNat) * 256 + (pkt (dataStart pkt + 7)).toNat
  rw [u16, Nat.shiftLeft_eq]
  omega

theorem value_etherTypeString (len : Int) (m : Mem UInt8) : (pktGetEtherTypeString len).value m =
    if snapType.value m = snapTypeIpv4 then some (etherTypeString (m 17))
    else if snapType.value m = snapTypeIpv6 then some (etherTypeString (m 15)) else none := by
  unfold pktGetEtherTypeString
  rw [Reads.value_bind]
  split
  · rfl
  · split <;> rfl

/-- From the data on, an IPv6 header is read in the wrong place, and two protocols are called EAP. -/
theorem protocol_iff (len : Int) :
    (∀ protocol, ipProtocolOf (frameData pkt size) = some protocol →
      (((pktGetEtherTypeString len).at (dataStart pkt)).value pkt).bind IpProtocol.ofText = some (.ofByte protocol)) ↔
    (snapOf (frameData pkt size) = some snapTypeIpv4 → 18 ≤ (frameData pkt size).length →
      pkt (dataStart pkt + 17) ∉ misnamed) ∧
    (snapOf (frameData pkt size) = some snapTypeIpv6 → 15 ≤ (frameData pkt size).length →
      pkt (dataStart pkt + 15) ∉ misnamed ∧
        IpProtocol.ofByte (pkt (dataStart pkt + 15)) = IpProtocol.ofByte (pkt (dataStart pkt + 14))) := by
  have h46 : snapTypeIpv6 ≠ snapTypeIpv4 := by decide
  rw [Reads.value_at, value_etherTypeString, ipProtocolOf]
  -- where the protocol is at `i` and the text is that of the byte at `j`
  have hread : ∀ i j : Nat, (∀ protocol, (frameData pkt size)[i]? = some protocol →
      (some (etherTypeString (pkt (dataStart pkt + j)))).bind IpProtocol.ofText = some (.ofByte protocol)) ↔
      (i < (frameData pkt size).length → pkt (dataStart pkt + j) ∉ misnamed ∧
        IpProtocol.ofByte (pkt (dataStart pkt + j)) = IpProtocol.ofByte (pkt (dataStart pkt + i))) := by
    intro i j
    rw [Option.bind_some]
    constructor
    · exact fun h hlen => tells_iff.1 (h _ (getElem?_frameData hlen))
    · intro h protocol hp
      have hlen : i < (frameData pkt size).length := (List.getElem?_eq_some_iff.1 hp).1
      rw [getElem?_frameData hlen] at hp
      exact tells_iff.2 (Option.some.inj hp ▸ h hlen)
  by_cases h4 : snapOf (frameData pkt size) = some snapTypeIpv4
  · have hne : snapOf (frameData pkt size) ≠ some snapTypeIpv6 := by
      rw [h4]
      exact fun h => h46 (Option.some.inj h).symm
    rw [snapType_eq h4, if_pos rfl, if_pos h4]
    refine (hread 17 17).trans ?_
    exact ⟨fun h => ⟨fun _ hlen => (h hlen).1, fun h6 => absurd h6 hne⟩, fun h hlen => ⟨h.1 h4 hlen, rfl⟩⟩
  · rw [if_neg h4]
    by_cases h6 : snapOf (frameData pkt size) = some snapTypeIpv6
    · rw [snapType_eq h6, if_neg h46, if_pos rfl, if_pos h6]
      refine (hread 14 15).trans ?_
      exact ⟨fun h => ⟨fun h' => absurd h' h4, fun _ hlen => h hlen⟩, fun h hlen => h.2 h6 hlen⟩
    · rw [if_neg h6]
      exact iff_of_true nofun ⟨fun h => absurd h h4, fun h => absurd h h6⟩

theorem dataLength_eq (hlen : radiotapLen.value pkt + 24 ≤ size) (hsize : size < 2147483648) :
    ((pktIsData size).value pkt).2.2 = (size - (radiotapLen.value pkt + 24) : Nat) := by
  show asInt (u32 ((size : Int) - radiotapLen.value pkt - 24)) = _
  have hu : u32 ((size : Int) - radiotapLen.value pkt - 24) = size - (radiotapLen.value pkt + 24) := by
    unfold u32
    omega
  rw [hu, asInt, if_pos (by omega)]

/-- `pkt_is_data` finds the data of exactly the plain frames with three addresses, and from there the protocol
is reported unless it is called EAP, or the hop limit of an IPv6 header stands for another one than its next header
field. -/
theorem findsData_iff (h : IsDataFrame pkt size) : FindsData pkt size ↔ PlainData pkt size := by
  have hplain := dataStart_eq_iff size h.data
  constructor
  · intro hfinds
    have hstart : dataStart pkt = radiotapLen.value pkt + 24 := hfinds.start.symm
    obtain ⟨hsubtype, haddresses⟩ := hplain.1 hstart
    have hprotocol := hfinds.protocol
    rw [hfinds.start] at hprotocol
    obtain ⟨hipv4, hipv6⟩ := (protocol_iff _).1 hprotocol
    exact ⟨hsubtype, haddresses, hipv4, hipv6⟩
  · rintro ⟨hsubtype, haddresses, hipv4, hipv6⟩
    have hstart : ((pktIsData size).value pkt).2.1 = dataStart pkt := (hplain.2 ⟨hsubtype, haddresses⟩).symm
    have hheader := h.header
    rw [← hstart] at hheader
    refine ⟨hstart, ?_, fun snap hsnap => ?_, ?_⟩
    · rw [← hstart]
      exact dataLength_eq hheader h.size
    · rw [hstart, Reads.value_at]
      show LlcType.ofText (llcTypeString (snapType.value (pkt.offset (dataStart pkt)))) = _
      rw [snapType_eq hsnap, ofText_llcTypeString]
    · rw [hstart]
      exact (protocol_iff _).2 ⟨hipv4, hipv6⟩

/-- A frame behind a radiotap header of 8 bytes, with the two bytes of its frame control field, and UDP over IPv4
behind a MAC header of 24 bytes -/
def udpFrame (fcField flags : UInt8) : Mem UInt8 := fun i =>
  if i = 2 then 8 else if i = 8 then fcField else if i = 9 then flags else if i = 38 then 0x08
  else if i = 49 then 0x11 else 0

theorem findsData_iff_udp : FindsData (udpFrame 0x08 0x01) 60 :=
  (findsData_iff ⟨by decide, by decide, by decide⟩).2 ⟨by decide, by decide, fun _ _ => by decide, fun h => absurd h (by decide)⟩

/-- A QoS frame to an access point: its data begins two bytes later. -/
theorem not_findsData : ¬ ∀ (pkt : Mem UInt8) (size : Nat), IsDataFrame pkt size → FindsData pkt size := by
  intro h
  have hfinds := h (udpFrame 0x88 0x01) 62 ⟨by decide, by decide, by decide⟩
  have hstart := hfinds.start
  revert hstart
  decide

end Bcaster
end WlanxVms
