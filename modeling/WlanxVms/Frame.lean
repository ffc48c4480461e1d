import WlanxVms.Lib.Reads
import WlanxVms.Lib.Word

/-!
# Decoding a captured frame (`utilities.c`, `pkt.c`)

A packet is a radiotap header and the 802.11 frame behind it; bytes 2 and 3 hold the length of the header.
All decoders start from that length and add fixed offsets to it; none looks at the size that it is given.
`getFrameControl` of the cross_injector and `pktGetFrameControl` of the bcaster are the same code. The
functions are `Reads`, so that it can be said which bytes they look at.
-/

namespace WlanxVms

/-- `getasb`: bit `b` of `x`, as a number with that bit at position `p` -/
def getasb (x : UInt8) (b p : Nat) : Nat :=
  if p < b then (x.toNat &&& (1 <<< b)) >>> (b - p) else (x.toNat &&& (1 <<< b)) <<< (p - b)

def getb (x : UInt8) (b : Nat) : Bool := (x.toNat &&& (1 <<< b)) >>> b ≠ 0

structure FrameControl where
  version : UInt8
  typeSubtype : UInt8
  toDS : Bool
  fromDS : Bool
  morefrag : Bool
  retry : Bool
  ps : Bool
  moredata : Bool
  protectedMF : Bool
  order : Bool
  dest : List UInt8

/-- The type of a frame, from the first byte of its frame control field -/
def typeSubtypeOf (fcField : UInt8) : UInt8 :=
  UInt8.ofNat (getasb fcField 3 5 + getasb fcField 2 4 + getasb fcField 7 3 + getasb fcField 6 2 +
    getasb fcField 5 1 + getasb fcField 4 0)

/-- `wfpkt[2] + (wfpkt[3] << 8)` -/
def radiotapLen : Reads Nat := do
  let lo ← .byte 2
  let hi ← .byte 3
  return lo.toNat + (hi.toNat <<< 8)

def getFrameControl (_size : Int) : Reads FrameControl := do
  let len ← radiotapLen
  let fcField ← .byte len
  let flags ← .byte (len + 1)
  let dest ← .bytes (len + 4) 6
  return { version := UInt8.ofNat (getasb fcField 1 1 + getasb fcField 0 0), typeSubtype := typeSubtypeOf fcField,
           toDS := getb flags 0, fromDS := getb flags 1, morefrag := getb flags 2, retry := getb flags 3,
           ps := getb flags 4, moredata := getb flags 5, protectedMF := getb flags 6, order := getb flags 7, dest }

def frameTypeBeacon : UInt8 := 0x08
def frameTypeAck : UInt8 := 0x1D

/-- `DATA` to `DATA_CF_ACK_CF_POLL`, `QOS_DATA` to `QOS_DATA_CF_ACK_CF_POLL` -/
def frameTypesData : List UInt8 := [0x20, 0x21, 0x22, 0x23, 0x28, 0x29, 0x2A, 0x2B]

def isAck (size : Int) : Reads Bool := do
  let fc ← getFrameControl size
  return fc.typeSubtype = frameTypeAck

def isBeacon (size : Int) : Reads Bool := do
  let fc ← getFrameControl size
  return fc.typeSubtype = frameTypeBeacon

/-! ### The bcaster -/

def pktGetFrameControl (size : Int) : Reads FrameControl := getFrameControl size

def pktIsBeacon (size : Int) : Reads Bool := do
  let fc ← pktGetFrameControl size
  return fc.typeSubtype = frameTypeBeacon

/-- `pkt_is_data`, with the offset in the packet and the length that it stores for its caller -/
def pktIsData (size : Int) : Reads (Bool × Nat × Int) := do
  let fc ← pktGetFrameControl size
  let len ← radiotapLen
  return (fc.typeSubtype ∈ frameTypesData, len + 24, asInt (u32 (size - len - 24)))

/-- The type from which `pkt_get_type_string` makes its text -/
def pktGetTypeString (size : Int) : Reads UInt8 := do
  let fc ← pktGetFrameControl size
  return fc.typeSubtype

def snapTypeIpv4 : Nat := 0x0800
def snapTypeIpv6 : Nat := 0x86DD
def snapTypeArp : Nat := 0x0806
def snapTypeEap : Nat := 0x888E

/-- `snap_type`, the last two bytes of the LLC header -/
def snapType : Reads Nat := do
  let hi ← .byte 6
  let lo ← .byte 7
  return u16 ((hi.toNat <<< 8) + lo.toNat)

def llcTypeString (snap : Nat) : String :=
  if snap = snapTypeIpv4 then "IPv4" else if snap = snapTypeIpv6 then "IPv6"
  else if snap = snapTypeArp then "ARP" else if snap = snapTypeEap then "EAP" else "TYPE?"

def pktGetLlcTypeString (_dataSize : Int) : Reads String := do
  let snap ← snapType
  return llcTypeString snap

def etherTypeString (etherType : UInt8) : String :=
  if etherType = 0x01 then "ICPMv4" else if etherType = 0x02 then "IGMPv4" else if etherType = 0x06 then "TCP"
  else if etherType = 0x11 then "UDP" else if etherType = 0x29 then "EAP" else if etherType = 0x2B then "ROUTING"
  else if etherType = 0x2E then "RSVP" else if etherType = 0x3A then "ICMPv6" else if etherType = 0x3B then "EAP"
  else "TYPE?"

/-- `pkt_get_ether_type_string`; it leaves the string alone when there is no IP header. -/
def pktGetEtherTypeString (_dataSize : Int) : Reads (Option String) := do
  let snap ← snapType
  if snap = snapTypeIpv4 then
    let etherType ← .byte 17
    return some (etherTypeString etherType)
  else if snap = snapTypeIpv6 then
    let etherType ← .byte 15
    return some (etherTypeString etherType)
  else return none

/-! ### What they read -/

section
variable {m : Mem UInt8} {n : Nat}

def fcField (m : Mem UInt8) : UInt8 := m (radiotapLen.value m)

@[simp] theorem within_radiotapLen : radiotapLen.Within n m ↔ 4 ≤ n := by
  simp only [radiotapLen, Reads.within_bind, Reads.within_byte, Reads.within_pure, and_true]
  omega

@[simp] theorem within_getFrameControl (size : Int) :
    (getFrameControl size).Within n m ↔ radiotapLen.value m + 10 ≤ n := by
  simp only [getFrameControl, Reads.within_bind, Reads.within_byte, Reads.within_pure, Reads.within_bytes,
    within_radiotapLen, and_true]
  omega

@[simp] theorem within_isAck (size : Int) : (isAck size).Within n m ↔ radiotapLen.value m + 10 ≤ n := by
  simp only [isAck, Reads.within_bind, Reads.within_pure, within_getFrameControl, and_true]

@[simp] theorem within_pktGetFrameControl (size : Int) :
    (pktGetFrameControl size).Within n m ↔ radiotapLen.value m + 10 ≤ n := within_getFrameControl size

@[simp] theorem within_pktIsBeacon (size : Int) : (pktIsBeacon size).Within n m ↔ radiotapLen.value m + 10 ≤ n := by
  simp only [pktIsBeacon, Reads.within_bind, Reads.within_pure, within_pktGetFrameControl, and_true]

@[simp] theorem within_pktIsData (size : Int) : (pktIsData size).Within n m ↔ radiotapLen.value m + 10 ≤ n := by
  simp only [pktIsData, Reads.within_bind, Reads.within_pure, within_pktGetFrameControl, within_radiotapLen, and_true]
  omega

@[simp] theorem within_pktGetTypeString (size : Int) :
    (pktGetTypeString size).Within n m ↔ radiotapLen.value m + 10 ≤ n := by
  simp only [pktGetTypeString, Reads.within_bind, Reads.within_pure, within_pktGetFrameControl, and_true]

@[simp] theorem within_snapType : snapType.Within n m ↔ 8 ≤ n := by
  simp only [snapType, Reads.within_bind, Reads.within_byte, Reads.within_pure, and_true]
  omega

@[simp] theorem within_pktGetLlcTypeString (size : Int) : (pktGetLlcTypeString size).Within n m ↔ 8 ≤ n := by
  simp only [pktGetLlcTypeString, Reads.within_bind, Reads.within_pure, within_snapType, and_true]

@[simp] theorem within_pktGetEtherTypeString (size : Int) : (pktGetEtherTypeString size).Within n m ↔
    8 ≤ n ∧ (snapType.value m = snapTypeIpv4 → 18 ≤ n) ∧ (snapType.value m = snapTypeIpv6 → 16 ≤ n) := by
  have hne : snapTypeIpv4 ≠ snapTypeIpv6 := by decide
  simp only [pktGetEtherTypeString, Reads.within_bind, within_snapType, Reads.within_ite, Reads.within_byte,
    Reads.within_pure, and_true]
  by_cases h4 : snapType.value m = snapTypeIpv4
  · rw [h4, if_pos rfl]
    exact and_congr_right fun _ => ⟨fun h => ⟨fun _ => h, fun h6 => absurd h6 hne⟩, fun h => h.1 rfl⟩
  · rw [if_neg h4]
    split
    · next h6 => exact and_congr_right fun _ => ⟨fun h => ⟨fun h4' => absurd h4' h4, fun _ => h⟩, fun h => h.2 h6⟩
    · next h6 => exact and_congr_right fun _ => ⟨fun _ => ⟨fun h => absurd h h4, fun h => absurd h h6⟩, fun _ => trivial⟩

end
end WlanxVms
