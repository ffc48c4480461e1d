import WlanxVms.Hwsim
import WlanxVms.Radiotap.Format

/-!
# Injection through the monitor interface (`hwsim_mon_xmit`)

A frame written to the monitor interface is copied for every radio in the list of the driver, and acknowledged when
it is addressed to one of them. The two copies of the driver differ in what they do with `ack_sent` and with `data->ps`;
`monXmit` is what they have in common. The monitor device has no private data, so `ps` is whatever stands there.
-/

namespace WlanxVms
namespace Hwsim

def pageSize : Nat := 4096

abbrev MacAddr : Type := Vector UInt8 ethAlen

/-- The fields of `struct mac80211_hwsim_data` that a frame is matched against; `vifs` are its active interfaces. -/
structure HwsimData where
  idx : Int
  scanning : Bool
  scanAddr : MacAddr
  vifs : List MacAddr

/-- What the kernel answers in one round of the loop, and what is in the linear part of a buffer from `dev_alloc_skb` -/
structure Allocs where
  allocPage : Bool
  devAllocSkb : Bool
  skbCopy : Bool
  linear : Mem UInt8

structure RxFrame where
  radio : Int
  -- of `rx_status`
  chan : Ieee80211Channel
  bytes : List UInt8

/-- The calls of `mac80211_hwsim_monitor_ack` and of `ieee80211_rx_irqsafe` so far -/
structure Xmit where
  ackSent : Bool
  acks : List (Ieee80211Channel × MacAddr)
  received : List RxFrame

/-! ### The source -/

def addrAt (m : Mem UInt8) (off : Nat) : MacAddr := Vector.ofFn fun i => m (off + i)

def addr1 (hdr : Mem UInt8) : MacAddr := addrAt hdr 4
def addr2 (hdr : Mem UInt8) : MacAddr := addrAt hdr 10

/-- `ieee80211_is_ack` -/
def isAck (hdr : Mem UInt8) : Bool := le16ToCpu hdr 0 &&& 0x00fc = 0x00d4

/-- `mac80211_hwsim_addr_match` -/
def addrMatch (data : HwsimData) (addr : MacAddr) : Bool :=
  if data.scanning ∧ addr = data.scanAddr then true else data.vifs.contains addr

/-- `hdr->frame_control |= cpu_to_le16(IEEE80211_FCTL_PM)` -/
def setPm (hdr : Mem UInt8) : Mem UInt8 := hdr.set 1 (hdr 1 ||| 0x10)

def copied (paged : Bool) (r : HwsimData × Allocs) : Bool :=
  if paged then r.2.allocPage && r.2.devAllocSkb else r.2.skbCopy

/-- `nskb->data`; the page is attached as a fragment and not copied to it. -/
def nskbData (paged : Bool) (frame : Mem UInt8) (r : HwsimData × Allocs) : Mem UInt8 :=
  if paged then r.2.linear else frame

/-- The frame is for this radio and no acknowledgement itself, by what stands in its copy's linear part. -/
def answers (paged : Bool) (frame : Mem UInt8) (len : Nat) (r : HwsimData × Allocs) : Bool :=
  16 ≤ len ∧ addrMatch r.1 (addr1 (nskbData paged frame r)) ∧ ¬ isAck (nskbData paged frame r)

/-- `if (!ack_sent)`; `remembers` says that `ack_sent` is set then. -/
def Xmit.acknowledge (remembers : Bool) (chan : Ieee80211Channel) (addr : MacAddr) (s : Xmit) : Xmit :=
  if s.ackSent then s else { s with acks := s.acks ++ [(chan, addr)], ackSent := remembers }

def Xmit.round (remembers paged : Bool) (frame : Mem UInt8) (len : Nat) (chan : Ieee80211Channel) (s : Xmit)
    (r : HwsimData × Allocs) : Xmit :=
  if copied paged r then
    let s := if answers paged frame len r then s.acknowledge remembers chan (addr2 (nskbData paged frame r)) else s
    { s with received := s.received ++ [{ radio := r.1.idx, chan, bytes := frame.read 0 len }] }
  else s

/-- `skb_pull` of the radiotap header, unless the packet ends with it -/
def pull (skb : Mem UInt8) (len : Nat) : Mem UInt8 × Nat :=
  if itLen skb < len then (skb.offset (itLen skb), len - itLen skb) else (skb, len)

def isPaged (pagedRx : Bool) (len : Nat) : Bool := len < pageSize && pagedRx

def monXmit (remembers : Bool) (prepare : Mem UInt8 → Mem UInt8) (pagedRx : Bool) (skb : Mem UInt8) (len : Nat)
    (radios : List (HwsimData × Allocs)) : Xmit :=
  let chan := channelFromRthdr (rtHeaderOf skb len)
  let (frame, frameLen) := pull skb len
  radios.foldl (Xmit.round remembers (isPaged pagedRx frameLen) (prepare frame) frameLen chan)
    { ackSent := false, acks := [], received := [] }

/-- `hwsim_mon_xmit` of the driver in `packages`; `ps` says that `data->ps` is not `PS_DISABLED`. -/
def hwsimMonXmit (ps : Bool) : Bool → Mem UInt8 → Nat → List (HwsimData × Allocs) → Xmit :=
  monXmit false fun frame => if ps then setPm frame else frame

/-- `hwsim_mon_xmit` of the patch -/
def hwsimMonXmitPatch : Bool → Mem UInt8 → Nat → List (HwsimData × Allocs) → Xmit :=
  monXmit true fun frame => frame

/-! ### What injection is for -/

def copies (pagedRx : Bool) (skb : Mem UInt8) (len : Nat) (radios : List (HwsimData × Allocs)) :
    List (HwsimData × Allocs) :=
  radios.filter (copied (isPaged pagedRx (pull skb len).2))

/-- The frame is to be acknowledged by one of the radios. -/
def Demands (skb : Mem UInt8) (len : Nat) (rs : List (HwsimData × Allocs)) : Prop :=
  16 ≤ len - itLen skb ∧ isAck (skb.offset (itLen skb)) = false ∧
    ∃ r ∈ rs, addrMatch r.1 (addr1 (skb.offset (itLen skb))) = true

/-- Each radio with a copy gets the bytes behind the radiotap header once, and there is one acknowledgement at most,
and one when it is demanded. -/
structure Injects (pagedRx : Bool) (skb : Mem UInt8) (len : Nat) (radios : List (HwsimData × Allocs)) (out : Xmit) :
    Prop where
  received : out.received.map (fun x => (x.radio, x.bytes)) =
    (copies pagedRx skb len radios).map fun r => (r.1.idx, (skb.read 0 len).drop (itLen skb))
  atMostOnce : out.acks.length ≤ 1
  once : Demands skb len (copies pagedRx skb len radios) → out.acks.length = 1

def answering (pagedRx : Bool) (skb : Mem UInt8) (len : Nat) (radios : List (HwsimData × Allocs)) :
    List (HwsimData × Allocs) :=
  (copies pagedRx skb len radios).filter
    (answers (isPaged pagedRx (pull skb len).2) (pull skb len).1 (pull skb len).2)

def Pulled (skb : Mem UInt8) (len : Nat) : Prop := itLen skb < len ∨ len = 0

-- the bit that `setPm` sets is there already, if the frame has a second byte
def HasPm (frame : Mem UInt8) (len : Nat) : Prop := 2 ≤ len → frame 1 ||| 0x10 = frame 1

/-- In the paged path, the address is found in what the linear part of some copy happens to have. -/
def FoundInLinear (pagedRx : Bool) (skb : Mem UInt8) (len : Nat) (radios : List (HwsimData × Allocs)) : Prop :=
  isPaged pagedRx (pull skb len).2 = true → Demands skb len (copies pagedRx skb len radios) →
    answering pagedRx skb len radios ≠ []

/-! ### The loop -/

variable {remembers paged pagedRx ps : Bool} {frame skb : Mem UInt8} {len : Nat} {chan : Ieee80211Channel}
  {radios : List (HwsimData × Allocs)} {prepare : Mem UInt8 → Mem UInt8}

theorem received_round (s : Xmit) (r : HwsimData × Allocs) :
    (s.round remembers paged frame len chan r).received =
      s.received ++ if copied paged r then [{ radio := r.1.idx, chan, bytes := frame.read 0 len }] else [] := by
  have hsame : (if answers paged frame len r then s.acknowledge remembers chan (addr2 (nskbData paged frame r))
      else s).received = s.received := by
    unfold Xmit.acknowledge
    split
    · split <;> rfl
    · rfl
  unfold Xmit.round
  split
  · exact congrArg (· ++ _) hsame
  · exact (List.append_nil _).symm

theorem acks_round (s : Xmit) (r : HwsimData × Allocs) (hcopied : copied paged r = true) :
    (s.round remembers paged frame len chan r).acks.length =
        s.acks.length + (if s.ackSent = false ∧ answers paged frame len r then 1 else 0) ∧
      (s.round remembers paged frame len chan r).ackSent =
        if answers paged frame len r then s.ackSent || remembers else s.ackSent := by
  rw [Xmit.round, if_pos hcopied]
  cases hsent : s.ackSent with
  | true =>
    split
    · simp [Xmit.acknowledge, hsent]
    · simp [hsent]
  | false =>
    split
    · next hans => simp [Xmit.acknowledge, hsent, hans]
    · next hans => simp [hsent, hans]

theorem received_loop (radios : List (HwsimData × Allocs)) (s : Xmit) :
    (radios.foldl (Xmit.round remembers paged frame len chan) s).received = s.received ++
      (radios.filter (copied paged)).map fun r => { radio := r.1.idx, chan, bytes := frame.read 0 len } := by
  induction radios generalizing s with
  | nil => exact (List.append_nil _).symm
  | cons r radios ih =>
    rw [List.foldl_cons, ih, received_round, List.append_assoc]
    congr 1
    split
    · next hcopied =>
      rw [List.filter_cons_of_pos hcopied]
      rfl
    · next hfailed =>
      rw [List.filter_cons_of_neg hfailed]
      rfl

/-- Every radio that answers is acknowledged when `ack_sent` is never set, and the first one when it is. -/
theorem acks_loop (radios : List (HwsimData × Allocs)) (s : Xmit) :
    (radios.foldl (Xmit.round remembers paged frame len chan) s).acks.length = s.acks.length +
      if s.ackSent then 0 else
        let n := ((radios.filter (copied paged)).filter (answers paged frame len)).length
        if remembers then min 1 n else n := by
  induction radios generalizing s with
  | nil => simp
  | cons r radios ih =>
    rw [List.foldl_cons, ih]
    by_cases hcopied : copied paged r = true
    · obtain ⟨hacks, hsent⟩ := acks_round s r hcopied
      rw [hacks, hsent, List.filter_cons_of_pos hcopied]
      by_cases hans : answers paged frame len r = true
      · rw [if_pos hans, List.filter_cons_of_pos hans, List.length_cons]
        cases s.ackSent with
        | true => simp
        | false =>
          cases remembers with
          | true => simp [hans]
          | false =>
            simp [hans]
            omega
      · rw [if_neg hans, if_neg (fun h => hans h.2), List.filter_cons_of_neg hans]
        rfl
    · rw [Xmit.round, if_neg hcopied, List.filter_cons_of_neg hcopied]

/-! ### The whole call -/

theorem received_monXmit : (monXmit remembers prepare pagedRx skb len radios).received.map (fun x => (x.radio, x.bytes)) =
    (copies pagedRx skb len radios).map fun r => (r.1.idx, (prepare (pull skb len).1).read 0 (pull skb len).2) := by
  show ((radios.foldl (Xmit.round _ _ _ _ _) _).received).map _ = _
  rw [received_loop, List.nil_append, List.map_map]
  rfl

-- `prepare` does not touch what the frame is matched by
def Keeps (prepare : Mem UInt8 → Mem UInt8) : Prop :=
  ∀ paged frame len, answers paged (prepare frame) len = answers paged frame len

theorem acks_monXmit (hprepare : Keeps prepare) :
    (monXmit remembers prepare pagedRx skb len radios).acks.length =
      if remembers then min 1 (answering pagedRx skb len radios).length
      else (answering pagedRx skb len radios).length := by
  show (radios.foldl (Xmit.round _ _ _ _ _) _).acks.length = _
  rw [acks_loop, hprepare]
  exact Nat.zero_add _

theorem injects_monXmit_iff (hprepare : Keeps prepare) :
    Injects pagedRx skb len radios (monXmit remembers prepare pagedRx skb len radios) ↔
      copies pagedRx skb len radios = [] ∨
        (prepare (pull skb len).1).read 0 (pull skb len).2 = (skb.read 0 len).drop (itLen skb) ∧
          (remembers = false → (answering pagedRx skb len radios).length ≤ 1) ∧
          (Demands skb len (copies pagedRx skb len radios) → answering pagedRx skb len radios ≠ []) := by
  have hacks : (monXmit remembers prepare pagedRx skb len radios).acks.length = _ := acks_monXmit hprepare
  constructor
  · rintro ⟨hreceived, hmost, honce⟩
    rw [hacks] at hmost honce
    refine or_iff_not_imp_left.2 fun hne => ⟨?_, ?_, ?_⟩
    · -- the first of the copies
      obtain ⟨r, rest, hcopies⟩ := List.exists_cons_of_ne_nil hne
      rw [received_monXmit, hcopies, List.map_cons, List.map_cons] at hreceived
      exact congrArg Prod.snd (List.cons.inj hreceived).1
    · intro hrem
      rw [hrem] at hmost
      exact hmost
    · intro hdemands hnil
      have hone := honce hdemands
      rw [hnil] at hone
      cases remembers <;> cases hone
  · rintro (hnil | ⟨hbytes, hmost, honce⟩)
    · have hans : answering pagedRx skb len radios = [] := by rw [answering, hnil, List.filter_nil]
      have hnone : (monXmit remembers prepare pagedRx skb len radios).acks.length = 0 := by
        rw [hacks, hans]
        cases remembers <;> rfl
      refine ⟨by rw [received_monXmit, hnil]; rfl, by rw [hnone]; exact Nat.zero_le 1, ?_⟩
      rintro ⟨-, -, r, hr, -⟩
      rw [hnil] at hr
      cases hr
    · refine ⟨by rw [received_monXmit, hbytes], ?_, ?_⟩
      · rw [hacks]
        cases remembers with
        | true => exact Nat.min_le_left ..
        | false => exact hmost rfl
      · intro hdemands
        have hpos := List.length_pos_iff.2 (honce hdemands)
        rw [hacks]
        cases remembers with
        | true => exact Nat.min_eq_left hpos
        | false => exact Nat.le_antisymm (hmost rfl) hpos

/-! ### The bytes that are sent -/

theorem pulled_of_read {m : Mem UInt8} (h : m.read 0 (pull skb len).2 = (skb.read 0 len).drop (itLen skb)) :
    Pulled skb len := by
  by_contra hnot
  obtain ⟨hle, hne⟩ := not_or.1 hnot
  have hpull : pull skb len = (skb, len) := if_neg hle
  -- nothing is pulled, although nothing is behind the header
  have hlen := congrArg List.length h
  rw [hpull, Mem.length_read, List.length_drop, Mem.length_read] at hlen
  omega

theorem read_pull (h : Pulled skb len) :
    (pull skb len).1.read 0 (pull skb len).2 = (skb.read 0 len).drop (itLen skb) := by
  by_cases hlt : itLen skb < len
  · have hpull : pull skb len = (skb.offset (itLen skb), len - itLen skb) := if_pos hlt
    rw [hpull, Mem.read_offset, Mem.drop_read _ _ (Nat.le_of_lt hlt), Nat.zero_add]
    rfl
  · obtain rfl := h.resolve_left hlt
    have hpull : pull skb 0 = (skb, 0) := if_neg hlt
    rw [hpull]
    exact List.drop_nil.symm

theorem read_pull_iff :
    (pull skb len).1.read 0 (pull skb len).2 = (skb.read 0 len).drop (itLen skb) ↔ Pulled skb len :=
  ⟨pulled_of_read, read_pull⟩

theorem read_setPm_iff : (setPm frame).read 0 len = frame.read 0 len ↔ HasPm frame len := by
  constructor
  · intro h hlen
    have hbyte : ∀ m : Mem UInt8, (m.read 0 len)[1]? = some (m 1) := by
      intro m
      rw [List.getElem?_eq_getElem (by rw [Mem.length_read]; exact hlen), Mem.getElem_read]
    have hsame := congrArg (fun bs => bs[1]?) h
    simp only [hbyte] at hsame
    exact (Mem.set_self frame 1 _).symm.trans (Option.some.inj hsame)
  · intro h
    refine Mem.read_congr fun i hi => ?_
    rw [Nat.zero_add]
    by_cases h1 : i = 1
    · subst h1
      exact (Mem.set_self frame 1 _).trans (h hi)
    · exact Mem.set_of_ne frame _ h1

theorem read_setPm_pull_iff :
    (setPm (pull skb len).1).read 0 (pull skb len).2 = (skb.read 0 len).drop (itLen skb) ↔
      Pulled skb len ∧ HasPm (pull skb len).1 (pull skb len).2 := by
  constructor
  · intro h
    have hpulled := pulled_of_read h
    rw [← read_pull hpulled] at h
    exact ⟨hpulled, read_setPm_iff.1 h⟩
  · rintro ⟨hpulled, hpm⟩
    rw [← read_pull hpulled]
    exact read_setPm_iff.2 hpm

theorem isAck_eq (hdr : Mem UInt8) : isAck hdr = decide ((hdr 0).toNat &&& 0xfc = 0xd4) := by
  -- the type is in the low byte
  have hlow : le16ToCpu hdr 0 % 2 ^ 8 = (hdr 0).toNat := by
    have hvalue : le16ToCpu hdr 0 = (hdr 0).toNat + 256 * ((hdr 1).toNat + 256 * 0) := rfl
    have hlt := (hdr 0).toNat_lt
    omega
  have hmask : le16ToCpu hdr 0 &&& 0xfc = (hdr 0).toNat &&& 0xfc := by
    rw [← hlow, ← Nat.and_two_pow_sub_one_eq_mod, Nat.and_assoc]
    rfl
  rw [isAck, hmask]

theorem keeps_setPm : Keeps setPm := by
  intro paged frame len
  have hack : isAck (setPm frame) = isAck frame := by
    rw [isAck_eq, isAck_eq]
    rfl
  have haddr : addr1 (setPm frame) = addr1 frame := by
    refine Vector.ext fun i hi => ?_
    simp only [addr1, addrAt, Vector.getElem_ofFn]
    exact Mem.set_of_ne frame _ (by omega)
  funext r
  cases paged with
  | true => rfl
  | false =>
    show decide (16 ≤ len ∧ addrMatch r.1 (addr1 (setPm frame)) ∧ ¬ isAck (setPm frame)) = _
    rw [hack, haddr]
    rfl

theorem answering_of_demands (hlinear : isPaged pagedRx (pull skb len).2 = false)
    (h : Demands skb len (copies pagedRx skb len radios)) : answering pagedRx skb len radios ≠ [] := by
  obtain ⟨hlen, hack, r, hr, hmatch⟩ := h
  have hlt : itLen skb < len := by omega
  have hpull : pull skb len = (skb.offset (itLen skb), len - itLen skb) := if_pos hlt
  -- a linear copy is looked at where the frame is
  have hans : answers (isPaged pagedRx (pull skb len).2) (pull skb len).1 (pull skb len).2 r = true := by
    rw [hlinear, hpull]
    simp [answers, nskbData, hlen, hmatch, hack]
  exact List.ne_nil_of_mem (List.mem_filter.2 ⟨hr, hans⟩)

theorem demands_imp_iff : (Demands skb len (copies pagedRx skb len radios) → answering pagedRx skb len radios ≠ []) ↔
    FoundInLinear pagedRx skb len radios := by
  constructor
  · intro h _ hdemands
    exact h hdemands
  · intro h hdemands
    by_cases hpaged : isPaged pagedRx (pull skb len).2 = true
    · exact h hpaged hdemands
    · exact answering_of_demands (Bool.not_eq_true _ ▸ hpaged) hdemands

/-- Every radio with a copy gets the frame as it is, and one of them is acknowledged for all, exactly under these
conditions: in the driver of `packages` no bit is set and at most one radio answers, in the patch neither matters, and
in both there is something behind the radiotap header and the paged path finds the address. -/
theorem injects_iff (ps pagedRx : Bool) (skb : Mem UInt8) (len : Nat) (radios : List (HwsimData × Allocs)) :
    (Injects pagedRx skb len radios (hwsimMonXmit ps pagedRx skb len radios) ↔
      copies pagedRx skb len radios = [] ∨
        Pulled skb len ∧ (ps = true → HasPm (pull skb len).1 (pull skb len).2) ∧
          (answering pagedRx skb len radios).length ≤ 1 ∧ FoundInLinear pagedRx skb len radios) ∧
    (Injects pagedRx skb len radios (hwsimMonXmitPatch pagedRx skb len radios) ↔
      copies pagedRx skb len radios = [] ∨ Pulled skb len ∧ FoundInLinear pagedRx skb len radios) := by
  have hkeeps : Keeps fun frame => frame := fun _ _ _ => rfl
  constructor
  · rw [hwsimMonXmit]
    cases ps with
    | true =>
      refine (injects_monXmit_iff keeps_setPm).trans (or_congr_right ?_)
      rw [demands_imp_iff, read_setPm_pull_iff]
      constructor
      · rintro ⟨⟨hpulled, hpm⟩, hmost, hfound⟩
        exact ⟨hpulled, fun _ => hpm, hmost rfl, hfound⟩
      · rintro ⟨hpulled, hpm, hmost, hfound⟩
        exact ⟨⟨hpulled, hpm rfl⟩, fun _ => hmost, hfound⟩
    | false =>
      refine (injects_monXmit_iff hkeeps).trans (or_congr_right ?_)
      rw [demands_imp_iff, read_pull_iff]
      constructor
      · rintro ⟨hpulled, hmost, hfound⟩
        exact ⟨hpulled, nofun, hmost rfl, hfound⟩
      · rintro ⟨hpulled, -, hmost, hfound⟩
        exact ⟨hpulled, fun _ => hmost, hfound⟩
  · refine (injects_monXmit_iff hkeeps).trans (or_congr_right ?_)
    rw [demands_imp_iff, read_pull_iff]
    constructor
    · rintro ⟨hpulled, -, hfound⟩
      exact ⟨hpulled, hfound⟩
    · rintro ⟨hpulled, hfound⟩
      exact ⟨hpulled, nofun, hfound⟩

/-- Two radios whose interfaces have one address, and a frame to it -/
theorem not_injects : ¬ ∀ (ps pagedRx : Bool) (skb : Mem UInt8) (len : Nat) (radios : List (HwsimData × Allocs)),
    Injects pagedRx skb len radios (hwsimMonXmit ps pagedRx skb len radios) := by
  intro h
  let radio (idx : Int) : HwsimData × Allocs :=
    ({ idx, scanning := false, scanAddr := Vector.replicate 6 0, vifs := [#v[2, 0, 0, 0, 1, 0]] },
      { allocPage := false, devAllocSkb := false, skbCopy := true, linear := Mem.fill 0 })
  let skb : Mem UInt8 := (Mem.fill 0).write 0 [0, 0, 8, 0, 0, 0, 0, 0, 8, 0, 0, 0, 2, 0, 0, 0, 1, 0]
  have hacks := (h false false skb 40 [radio 0, radio 1]).atMostOnce
  revert hacks
  decide

end Hwsim
end WlanxVms
