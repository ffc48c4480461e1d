import WlanxVms.Hwsim.Netlink

/-!
# The perfect medium (`mac80211_hwsim_tx_frame_no_nl`)

Without a daemon, each frame is copied to the radios that hear it, at once and under `hwsim_radio_lock`. `Hears` says
which ones these are. `Mac80211HwsimData.callback` has what mac80211 and the files in debugfs do to a radio in between:
no file ever puts a radio into the mode `PS_MANUAL_POLL`, which `hwsim_ps_rx_ok` has a case for.
-/

namespace WlanxVms
namespace Hwsim

/-- `struct ieee80211_tx_rate`, with one field for each flag that is looked at -/
structure TxRate where
  idx : Int8
  count : UInt8
  vhtMcs : Bool
  mcs : Bool
  width40 : Bool
  width80 : Bool
  width160 : Bool
  shortGi : Bool
deriving DecidableEq

/-- `txi->control.vif`: the channel of its context, and `bss_conf.txpower` -/
structure TxVif where
  chanctx : Option Nat
  txpower : Int

/-- A frame to be sent, with its control buffer -/
structure TxSkb where
  data : List UInt8
  reqTxStatus : Bool
  noAck : Bool
  hwQueue : Nat
  vif : Option TxVif
  rates : Vector TxRate 4

inductive RxEncoding where
  | legacy | ht | vht
deriving DecidableEq

inductive RateInfoBw where
  | bw20 | bw40 | bw80 | bw160
deriving DecidableEq

/-- `struct ieee80211_rx_status` -/
structure RxStatus where
  mactime : UInt64
  freq : Nat
  rateIdx : UInt8
  nss : UInt8
  encoding : RxEncoding
  bw : RateInfoBw
  shortGi : Bool
  signal : Int8
deriving DecidableEq

/-- A call of `ieee80211_rx_irqsafe` -/
structure Received where
  radio : Int
  data : List UInt8
  status : RxStatus
deriving DecidableEq

/-! ### The source -/

/-- `skb->data` -/
def skbData (data : List UInt8) : Mem UInt8 := (Mem.fill 0).write 0 data

/-- The frame in a buffer of its length -/
def withPm (ps : PsMode) (data : List UInt8) : List UInt8 :=
  if ps ≠ .disabled then (setPm (skbData data)).read 0 data.length else data

def isBeacon (hdr : Mem UInt8) : Bool := le16ToCpu hdr 0 &&& 0x00fc = 0x0080
def isProbeResp (hdr : Mem UInt8) : Bool := le16ToCpu hdr 0 &&& 0x00fc = 0x0050

def hwsimChansCompat : Option Nat → Option Nat → Bool
  | some c1, some c2 => c1 = c2
  | _, _ => false

/-- `mac80211_hwsim_tx_iter` for all active interfaces -/
def txIter (chan : Nat) (data : Mac80211HwsimData) : Bool := data.chanctxs.any (hwsimChansCompat (some chan))

def hwsimPsRxOk (data : Mac80211HwsimData) (frame : List UInt8) : Mac80211HwsimData × Bool :=
  match data.ps with
  | .disabled => (data, true)
  | .enabled => (data, false)
  | .autoPoll => (data, true)
  | .manualPoll =>
    if data.psPollPending ∧ addrMatch data.toHwsimData (addr1 (skbData frame)) then
      ({ data with psPollPending := false }, true)
    else (data, false)

/-- `rx_status` before the loop, with `mactime` for a radio whose `tsf_offset` is 0 -/
def rxStatus (skb : TxSkb) (chan : Nat) (now : UInt64) : RxStatus :=
  let rate := skb.rates[0]
  { mactime := now, freq := chan,
    rateIdx := if rate.vhtMcs then rate.idx.toUInt8 &&& 0xf else rate.idx.toUInt8,
    nss := if rate.vhtMcs then (rate.idx >>> 4).toUInt8 + 1 else 0,
    encoding := if rate.vhtMcs then .vht else if rate.mcs then .ht else .legacy,
    bw := if rate.width40 then .bw40 else if rate.width80 then .bw80 else if rate.width160 then .bw160 else .bw20,
    shortGi := rate.shortGi,
    signal := match skb.vif with
      | some vif => Int8.ofInt (-50 + vif.txpower)
      | none => -50 }

/-- What the loop over `hwsim_radios` has done so far -/
structure Delivery where
  hwsimRadios : List Mac80211HwsimData
  received : List Received
  ack : Bool

/-- One round of the loop; `copied` says for which radios there is memory for a copy. -/
def Delivery.round (data : Mac80211HwsimData) (frame : List UInt8) (chan : Nat) (status : RxStatus) (copied : Int → Bool)
    (d : Delivery) (data2 : Mac80211HwsimData) : Delivery :=
  let next (data2 : Mac80211HwsimData) : Delivery := { d with hwsimRadios := d.hwsimRadios ++ [data2] }
  if data.idx = data2.idx then next data2
  else if !data2.started || data2.idle && data2.tmpChan.isNone then next data2
  else
    let (data2, ok) := hwsimPsRxOk data2 frame
    if !ok then next data2
    else if data.group &&& data2.group = 0 then next data2
    else if data.netgroup ≠ data2.netgroup then next data2
    else if !hwsimChansCompat (some chan) data2.tmpChan && !hwsimChansCompat (some chan) data2.channel &&
        !txIter chan data2 then next data2
    else if !copied data2.idx then next data2
    else
      { hwsimRadios := d.hwsimRadios ++ [{ data2 with rxPkts := data2.rxPkts + 1, rxBytes := data2.rxBytes + UInt64.ofNat frame.length }],
        received := d.received ++ [⟨data2.idx, frame, { status with mactime := status.mactime + data2.tsfOffset }⟩],
        ack := if addrMatch data2.toHwsimData (addr1 (skbData frame)) then true else d.ack }

/-- `mac80211_hwsim_tx_frame_no_nl`; `tsfRaw` is the clock. -/
def mac80211HwsimTxFrameNoNl (data : Mac80211HwsimData) (skb : TxSkb) (chan : Nat) (tsfRaw : UInt64)
    (copied : Int → Bool) (radios : List Mac80211HwsimData) : Delivery :=
  let frame := withPm data.ps skb.data
  let now := if isBeacon (skbData frame) || isProbeResp (skbData frame) then data.absBcnTs else tsfRaw
  radios.foldl (Delivery.round data frame chan (rxStatus skb chan now) copied) ⟨[], [], false⟩

/-- What happens to a radio besides the frames: `tmpChan` is the channel of a scan or of a stay on another channel,
`interfaces` are the active interfaces with the channels of their contexts. -/
inductive Callback where
  | start
  | stop
  | config (channel : Option Nat) (idle : Bool)
  | swScan (macAddr : MacAddr)
  | swScanComplete
  | tmpChan (chan : Option Nat)
  | interfaces (vifs : List MacAddr) (chanctxs : List (Option Nat))
  | setTsf (tsfRaw tsf : UInt64)
  | psWrite (val : UInt64)
  | groupWrite (val : UInt64)

namespace Mac80211HwsimData

def hwsimFopsPsWrite (data : Mac80211HwsimData) (val : UInt64) : Mac80211HwsimData × Int :=
  if val ≠ 0 ∧ val ≠ 1 ∧ val ≠ 2 ∧ val ≠ 3 then (data, -22)
  else if val = 3 then if data.ps ≠ .enabled then (data, -22) else (data, 0)
  else ({ data with ps := if val = 0 then .disabled else if val = 1 then .enabled else .autoPoll }, 0)

/-- `mac80211_hwsim_set_tsf`; `delta` is compared as an unsigned number, but its sign is taken off. -/
def mac80211HwsimSetTsf (data : Mac80211HwsimData) (tsfRaw tsf : UInt64) : Mac80211HwsimData :=
  let now := tsfRaw + data.tsfOffset
  let delta := if tsf - now < 0x8000000000000000 then tsf - now else now - tsf
  if now < tsf then { data with tsfOffset := data.tsfOffset + delta }
  else { data with tsfOffset := data.tsfOffset - delta }

def callback (data : Mac80211HwsimData) : Callback → Mac80211HwsimData
  | .start => { data with started := true }
  | .stop => { data with started := false }
  | .config channel idle => { data with channel, idle }
  | .swScan macAddr => if data.scanning then data else { data with scanning := true, scanAddr := macAddr }
  | .swScanComplete => { data with scanning := false, scanAddr := Vector.replicate _ 0 }
  | .tmpChan chan => { data with tmpChan := chan }
  | .interfaces vifs chanctxs => { data with vifs, chanctxs }
  | .setTsf tsfRaw tsf => data.mac80211HwsimSetTsf tsfRaw tsf
  | .psWrite val => (data.hwsimFopsPsWrite val).1
  | .groupWrite val => { data with group := val }

/-! ### Who hears a frame -/

/-- The channels that the radio listens on -/
def Tuned (r : Mac80211HwsimData) (chan : Nat) : Prop :=
  r.tmpChan = some chan ∨ r.channel = some chan ∨ some chan ∈ r.chanctxs

/-- The radio listens to its channels at all. -/
structure Awake (r : Mac80211HwsimData) : Prop where
  started : r.started = true
  busy : r.idle = true → r.tmpChan.isSome = true
  ps : r.ps ≠ .enabled

/-- A frame of `r` on the channel `chan` is heard by `r'`. -/
structure Hears (r : Mac80211HwsimData) (chan : Nat) (r' : Mac80211HwsimData) : Prop where
  other : r.idx ≠ r'.idx
  awake : r'.Awake
  group : r.group &&& r'.group ≠ 0
  netgroup : r.netgroup = r'.netgroup
  tuned : r'.Tuned chan

/-- What no callback leads out of -/
structure PsValid (r : Mac80211HwsimData) : Prop where
  ps : r.ps ≠ .manualPoll
  psPollPending : r.psPollPending = false

instance (r : Mac80211HwsimData) (chan : Nat) : Decidable (r.Tuned chan) := by unfold Tuned; infer_instance

instance (r : Mac80211HwsimData) : Decidable r.Awake :=
  decidable_of_iff (r.started = true ∧ (r.idle = true → r.tmpChan.isSome = true) ∧ r.ps ≠ .enabled)
    ⟨fun ⟨h₁, h₂, h₃⟩ => ⟨h₁, h₂, h₃⟩, fun ⟨h₁, h₂, h₃⟩ => ⟨h₁, h₂, h₃⟩⟩

instance (r : Mac80211HwsimData) (chan : Nat) (r' : Mac80211HwsimData) : Decidable (r.Hears chan r') :=
  decidable_of_iff (r.idx ≠ r'.idx ∧ r'.Awake ∧ r.group &&& r'.group ≠ 0 ∧ r.netgroup = r'.netgroup ∧ r'.Tuned chan)
    ⟨fun ⟨h₁, h₂, h₃, h₄, h₅⟩ => ⟨h₁, h₂, h₃, h₄, h₅⟩, fun ⟨h₁, h₂, h₃, h₄, h₅⟩ => ⟨h₁, h₂, h₃, h₄, h₅⟩⟩

/-- The radio after it got a frame of `len` bytes -/
def count (len : Nat) (r : Mac80211HwsimData) : Mac80211HwsimData :=
  { r with rxPkts := r.rxPkts + 1, rxBytes := r.rxBytes + UInt64.ofNat len }

variable {r r' : Mac80211HwsimData} {chan : Nat} {frame : List UInt8}

theorem PsValid.callback (h : r.PsValid) (c : Callback) : (r.callback c).PsValid := by
  cases c with
  | swScan macAddr =>
    simp only [Mac80211HwsimData.callback]
    split
    · exact h
    · exact ⟨h.ps, h.psPollPending⟩
  | setTsf tsfRaw tsf =>
    simp only [Mac80211HwsimData.callback, mac80211HwsimSetTsf]
    split
    · exact ⟨h.ps, h.psPollPending⟩
    · exact ⟨h.ps, h.psPollPending⟩
  | psWrite val =>
    simp only [Mac80211HwsimData.callback, hwsimFopsPsWrite]
    split
    · exact h
    · split
      · split <;> exact h
      · refine ⟨?_, h.psPollPending⟩
        show (if val = 0 then PsMode.disabled else if val = 1 then .enabled else .autoPoll) ≠ .manualPoll
        split
        · decide
        · split <;> decide
  | _ => exact ⟨h.ps, h.psPollPending⟩

theorem PsValid.psRxOk (h : r.PsValid) (frame : List UInt8) : hwsimPsRxOk r frame = (r, decide (r.ps ≠ .enabled)) := by
  have hps := h.ps
  unfold hwsimPsRxOk
  cases hr : r.ps with
  | manualPoll => exact absurd hr hps
  | _ => rfl

end Mac80211HwsimData

theorem hwsimChansCompat_eq (chan : Nat) (c : Option Nat) : hwsimChansCompat (some chan) c = decide (c = some chan) := by
  cases c with
  | none => rfl
  | some f => simp [hwsimChansCompat, eq_comm]

theorem txIter_eq (chan : Nat) (r : Mac80211HwsimData) : txIter chan r = decide (some chan ∈ r.chanctxs) := by
  refine Bool.eq_iff_iff.2 ?_
  simp [txIter, hwsimChansCompat_eq]

variable {data r : Mac80211HwsimData} {frame : List UInt8} {chan : Nat} {status : RxStatus} {copied : Int → Bool}
  {radios : List Mac80211HwsimData} {skb : TxSkb} {tsfRaw : UInt64}

/-- The radios that get a copy of a frame -/
def gets (data : Mac80211HwsimData) (chan : Nat) (copied : Int → Bool) (r : Mac80211HwsimData) : Bool :=
  decide (data.Hears chan r) && copied r.idx

/-- The copy for a radio -/
def copyFor (frame : List UInt8) (status : RxStatus) (r : Mac80211HwsimData) : Received :=
  ⟨r.idx, frame, { status with mactime := status.mactime + r.tsfOffset }⟩

theorem round_of_gets (d : Delivery) (h : r.PsValid) (hgets : gets data chan copied r = true) :
    d.round data frame chan status copied r =
      { hwsimRadios := d.hwsimRadios ++ [r.count frame.length], received := d.received ++ [copyFor frame status r],
        ack := if addrMatch r.toHwsimData (addr1 (skbData frame)) then true else d.ack } := by
  obtain ⟨hhears, hcopied⟩ := Bool.and_eq_true_iff.1 hgets
  have hhears := of_decide_eq_true hhears
  have htuned : ¬(!hwsimChansCompat (some chan) r.tmpChan && !hwsimChansCompat (some chan) r.channel &&
      !txIter chan r) = true := by
    have := hhears.tuned
    simp only [Mac80211HwsimData.Tuned] at this
    simp only [hwsimChansCompat_eq, txIter_eq]
    simpa [or_iff_not_imp_left] using this
  have hawake : ¬(!r.started || r.idle && r.tmpChan.isNone) = true := by
    have hbusy := hhears.awake.busy
    cases hidle : r.idle with
    | false => simp [hhears.awake.started]
    | true =>
      have hsome := hbusy hidle
      simp [hhears.awake.started, Option.isNone_iff_eq_none, Option.isSome_iff_ne_none.1 hsome]
  unfold Delivery.round
  rw [if_neg hhears.other, if_neg hawake, h.psRxOk]
  simp only [decide_eq_true hhears.awake.ps, hcopied]
  rw [if_neg (by decide), if_neg hhears.group, if_neg (not_not.2 hhears.netgroup), if_neg htuned, if_neg (by decide)]
  rfl

theorem round_of_not_gets (d : Delivery) (h : r.PsValid) (hgets : gets data chan copied r = false) :
    d.round data frame chan status copied r = { d with hwsimRadios := d.hwsimRadios ++ [r] } := by
  unfold Delivery.round
  rw [h.psRxOk]
  simp only
  split
  · rfl
  next hother =>
  split
  · rfl
  next hawake =>
  split
  · rfl
  next hps =>
  split
  · rfl
  next hgroup =>
  split
  · rfl
  next hnetgroup =>
  split
  · rfl
  next htuned =>
  split
  · rfl
  next hcopied =>
  -- the radio has passed all the tests
  have hhears : data.Hears chan r := by
    simp only [Bool.or_eq_true, Bool.and_eq_true, not_or, not_and, Bool.not_eq_true, Bool.not_eq_false,
      Bool.not_eq_true', decide_eq_false_iff_not, not_not, Option.isNone_eq_false_iff] at hawake hps
    refine ⟨hother, ⟨by simpa using hawake.1, hawake.2, by simpa using hps⟩, hgroup, not_not.1 hnetgroup, ?_⟩
    simp only [hwsimChansCompat_eq, txIter_eq] at htuned
    simp only [Mac80211HwsimData.Tuned]
    by_contra hnot
    simp only [not_or] at hnot
    simp [hnot.1, hnot.2.1, hnot.2.2] at htuned
  have hcopied : copied r.idx = true := by simpa using hcopied
  rw [gets, decide_eq_true hhears, hcopied] at hgets
  cases hgets

theorem foldl_round (h : ∀ r ∈ radios, r.PsValid) (d : Delivery) :
    radios.foldl (Delivery.round data frame chan status copied) d =
      { hwsimRadios := d.hwsimRadios ++ radios.map fun r => if gets data chan copied r then r.count frame.length else r,
        received := d.received ++ (radios.filter (gets data chan copied)).map (copyFor frame status),
        ack := d.ack || (radios.filter (gets data chan copied)).any fun r =>
          addrMatch r.toHwsimData (addr1 (skbData frame)) } := by
  induction radios generalizing d with
  | nil => simp
  | cons r radios ih =>
    obtain ⟨hr, hrest⟩ := List.forall_mem_cons.1 h
    rw [List.foldl_cons, ih hrest]
    cases hgets : gets data chan copied r with
    | true =>
      rw [round_of_gets d hr hgets]
      cases hmatch : addrMatch r.toHwsimData (addr1 (skbData frame)) <;> simp [hgets, hmatch]
    | false =>
      rw [round_of_not_gets d hr hgets]
      simp [hgets]

end Hwsim
end WlanxVms
