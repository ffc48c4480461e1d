import WlanxVms.Lib.Mem
import WlanxVms.Lib.Word

/-!
# The header of a packet on the wire

A packet goes over a connection as its length (4 bytes), its timestamp (seconds and nanoseconds,
8 bytes each) and its bytes; all numbers are big endian. The codecs are `set_length`, `get_length`,
`set_timestamp` and `get_timestamp` of `ci_queues.c`; `pkt_get_length` of the bcaster is the code of
`get_length`.
-/

namespace WlanxVms

/-- `n` rounds of `m[last--] = v & 0xFF; v >>= 8`, the loops of `set_timestamp` and, unrolled, the
assignments of `set_length`. -/
def storeBE (m : Mem UInt8) (last v : Nat) : Nat → Mem UInt8
  | 0 => m
  | n + 1 => storeBE (m.set last (UInt8.ofNat (v &&& 0xFF))) (last - 1) (v >>> 8) n

def setLength (len : Mem UInt8) (size : Nat) : Mem UInt8 := storeBE len 3 size 4

def setTimestamp (timestamp : Mem UInt8) (sec nsec : UInt64) : Mem UInt8 :=
  storeBE (storeBE timestamp 7 sec.toNat 8) 15 nsec.toNat 8

def getLength (len : Mem UInt8) : Nat :=
  let size := (len 0).toNat
  let size := u32 (size <<< 8 : Nat)
  let size := u32 (size + (len 1).toNat : Nat)
  let size := u32 (size <<< 8 : Nat)
  let size := u32 (size + (len 2).toNat : Nat)
  let size := u32 (size <<< 8 : Nat)
  u32 (size + (len 3).toNat : Nat)

/-- `pkt_get_length` of the bcaster -/
def Bcaster.pktGetLength (len : Mem UInt8) : Nat := getLength len

/-- `n` rounds of a loop of `get_timestamp` from index `i` on; the last one does not shift. -/
def loadBE (timestamp : Mem UInt8) (i byte8 : Nat) : Nat → Nat
  | 0 => byte8
  | n + 1 =>
    let byte8 := u64 (byte8 + (timestamp i).toNat)
    loadBE timestamp (i + 1) (if n = 0 then byte8 else u64 (byte8 <<< 8)) n

def getTimestamp (timestamp : Mem UInt8) : UInt64 × UInt64 :=
  (UInt64.ofNat (loadBE timestamp 0 0 8), UInt64.ofNat (loadBE timestamp 8 0 8))

variable {m : Mem UInt8} {last v n i : Nat}

theorem ofNat_and_ff (v : Nat) : UInt8.ofNat (v &&& 0xFF) = UInt8.ofNat v := by
  refine UInt8.toNat_inj.1 ?_
  rw [UInt8.toNat_ofNat', UInt8.toNat_ofNat', Nat.and_two_pow_sub_one_eq_mod v 8]
  omega

theorem storeBE_of_gt (h : last < i) : storeBE m last v n i = m i := by
  induction n generalizing m last v with
  | zero => rfl
  | succ n ih => rw [storeBE, ih (by omega), Mem.set_of_ne _ _ (by omega)]

theorem storeBE_of_lt (h : i + n ≤ last) : storeBE m last v n i = m i := by
  induction n generalizing m last v with
  | zero => rfl
  | succ n ih => rw [storeBE, ih (by omega), Mem.set_of_ne _ _ (by omega)]

theorem read_storeBE (h : n ≤ last + 1) : (storeBE m last v n).read (last + 1 - n) n = beBytes n v := by
  induction n generalizing m last v with
  | zero => rfl
  | succ n ih =>
    have hshift : v >>> 8 = v / 256 := Nat.shiftRight_eq_div_pow v 8
    rw [storeBE, ofNat_and_ff, hshift]
    have hcell : storeBE (m.set last (UInt8.ofNat v)) (last - 1) (v / 256) n last = UInt8.ofNat v := by
      cases n with
      | zero => rw [storeBE, Mem.set_self]
      | succ n => rw [storeBE_of_gt (by omega), Mem.set_self]
    have hstart : (storeBE (m.set last (UInt8.ofNat v)) (last - 1) (v / 256) n).read (last - n) n =
        beBytes n (v / 256) := by
      cases n with
      | zero => rfl
      | succ n =>
        rw [← ih (show n + 1 ≤ last - 1 + 1 by omega), show last - 1 + 1 - (n + 1) = last - (n + 1) by omega]
    rw [Mem.read_add, show last + 1 - (n + 1) = last - n by omega, hstart, show last - n + n = last by omega,
      Mem.read_one, hcell, beBytes]

theorem read_setLength (len : Mem UInt8) (size : Nat) : (setLength len size).read 0 4 = beBytes 4 size :=
  read_storeBE (Nat.le_refl 4)

theorem read_setTimestamp (timestamp : Mem UInt8) (sec nsec : UInt64) :
    (setTimestamp timestamp sec nsec).read 0 16 = beBytes 8 sec.toNat ++ beBytes 8 nsec.toNat := by
  rw [show 16 = 8 + 8 from rfl, Mem.read_add]
  congr 1
  · rw [← read_storeBE (show 8 ≤ 7 + 1 by decide)]
    exact Mem.read_congr fun i hi => storeBE_of_lt (by omega)
  · exact read_storeBE (by decide)

theorem getLength_eq (len : Mem UInt8) : getLength len = beValue (len.read 0 4) := by
  have h0 := (len 0).toNat_lt
  have h1 := (len 1).toNat_lt
  have h2 := (len 2).toNat_lt
  have h3 := (len 3).toNat_lt
  have hread : len.read 0 4 = [len 0, len 1, len 2, len 3] := rfl
  rw [hread]
  simp only [getLength, beValue, List.foldl_cons, List.foldl_nil, u32, Nat.shiftLeft_eq]
  omega

theorem loadBE_eq {pre : List UInt8} (h : pre.length + (n + 1) ≤ 8) :
    loadBE m i (beValue pre * 256) (n + 1) = beValue (pre ++ m.read i (n + 1)) := by
  induction n generalizing pre i with
  | zero =>
    have hlt := beValue_lt (pre ++ [m i])
    have hpow : 256 ^ (pre ++ [m i]).length ≤ 256 ^ 8 := Nat.pow_le_pow_right (by decide) (by simpa using h)
    show u64 (beValue pre * 256 + (m i).toNat) = beValue (pre ++ [m i])
    rw [← beValue_concat, u64_of_lt (by omega)]
  | succ n ih =>
    have hlt := beValue_lt (pre ++ [m i])
    have hpow : 256 ^ (pre ++ [m i]).length ≤ 256 ^ 7 := Nat.pow_le_pow_right (by decide) (by simp; omega)
    have hread : m.read i (n + 1 + 1) = [m i] ++ m.read (i + 1) (n + 1) := by
      rw [Nat.add_comm (n + 1) 1, Mem.read_add]; rfl
    have hadd : u64 (beValue pre * 256 + (m i).toNat) = beValue (pre ++ [m i]) := by
      rw [← beValue_concat, u64_of_lt (by omega)]
    have hmul : u64 (beValue (pre ++ [m i]) <<< 8) = beValue (pre ++ [m i]) * 256 := by
      rw [Nat.shiftLeft_eq, u64_of_lt (by omega)]
    rw [loadBE, if_neg (Nat.succ_ne_zero n), hadd, hmul, ih (by simp; omega), hread, List.append_assoc]

theorem getTimestamp_of_read {sec nsec : UInt64}
    (h : m.read 0 16 = beBytes 8 sec.toNat ++ beBytes 8 nsec.toNat) : getTimestamp m = (sec, nsec) := by
  rw [show 16 = 8 + 8 from rfl, Mem.read_add] at h
  obtain ⟨hsec, hnsec⟩ := List.append_inj h (by simp)
  have hload : ∀ (i : Nat) (x : UInt64), m.read i 8 = beBytes 8 x.toNat → UInt64.ofNat (loadBE m i 0 8) = x := by
    intro i x hx
    have := @loadBE_eq m 7 i [] (by decide)
    rw [show beValue [] * 256 = 0 from rfl, List.nil_append, hx, beValue_beBytes x.toNat_lt] at this
    rw [this, UInt64.ofNat_toNat]
  exact Prod.ext (hload 0 sec hsec) (hload _ nsec hnsec)

theorem getLength_setLength (len : Mem UInt8) {size : Nat} (h : size < 256 ^ 4) :
    getLength (setLength len size) = size := by
  rw [getLength_eq, read_setLength, beValue_beBytes h]

theorem getTimestamp_setTimestamp (timestamp : Mem UInt8) (sec nsec : UInt64) :
    getTimestamp (setTimestamp timestamp sec nsec) = (sec, nsec) :=
  getTimestamp_of_read (read_setTimestamp timestamp sec nsec)

theorem read_setLength_getLength (len m : Mem UInt8) : (setLength len (getLength m)).read 0 4 = m.read 0 4 := by
  have h := beBytes_beValue (m.read 0 4)
  rw [Mem.length_read] at h
  rw [read_setLength, getLength_eq, h]

theorem read_setTimestamp_getTimestamp (timestamp m : Mem UInt8) :
    (setTimestamp timestamp (getTimestamp m).1 (getTimestamp m).2).read 0 16 = m.read 0 16 := by
  have hload : ∀ i, beBytes 8 (UInt64.ofNat (loadBE m i 0 8)).toNat = m.read i 8 := by
    intro i
    have hval := @loadBE_eq m 7 i [] (by decide)
    rw [show beValue [] * 256 = 0 from rfl, List.nil_append] at hval
    have hlt := beValue_lt (m.read i 8)
    have hbytes := beBytes_beValue (m.read i 8)
    rw [Mem.length_read] at hlt hbytes
    rw [hval, UInt64.toNat_ofNat_of_lt' hlt, hbytes]
  rw [read_setTimestamp, show 16 = 8 + 8 from rfl, Mem.read_add]
  exact congrArg₂ (· ++ ·) (hload 0) (hload 8)

/-- The sender, the bcaster and the receiver agree about every header: what is decoded is what was
encoded, and any 20 bytes are the encoding of what they are decoded to. -/
theorem header_codecsAgree :
    (∀ (len : Mem UInt8) (size : UInt32),
      getLength (setLength len size.toNat) = size.toNat ∧
      Bcaster.pktGetLength (setLength len size.toNat) = size.toNat) ∧
    (∀ (timestamp : Mem UInt8) (sec nsec : UInt64), getTimestamp (setTimestamp timestamp sec nsec) = (sec, nsec)) ∧
    ∀ header len timestamp : Mem UInt8,
      Bcaster.pktGetLength header = getLength header ∧
      (setLength len (getLength header)).read 0 4 ++
        (setTimestamp timestamp (getTimestamp (header.offset 4)).1 (getTimestamp (header.offset 4)).2).read 0 16 =
          header.read 0 20 := by
  refine ⟨fun len size => ?_, getTimestamp_setTimestamp, fun header len timestamp => ⟨rfl, ?_⟩⟩
  · have h : size.toNat < 256 ^ 4 := size.toNat_lt
    exact ⟨getLength_setLength len h, getLength_setLength len h⟩
  · rw [read_setLength_getLength, read_setTimestamp_getTimestamp, Mem.read_offset, show 20 = 4 + 16 from rfl,
      Mem.read_add]

end WlanxVms
