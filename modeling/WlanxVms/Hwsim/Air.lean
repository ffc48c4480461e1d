import WlanxVms.Hwsim.Pending

/-!
# The radios on the air (`mac80211_hwsim.c`)

`Air` is the driver at work, with the history of each radio: frames are sent on the perfect medium or by way of the
daemons, these answer with `HWSIM_CMD_TX_INFO_FRAME` and hand in frames with `HWSIM_CMD_FRAME`, frames are written to
the monitor interface, and the steps of `HwsimSys` and the callbacks go on in between. A frame is in no queue between
its message and `skb_queue_tail`, and the daemon may answer then. A radio that is not in the list can send, but it gets
no frame.
-/

namespace WlanxVms
namespace Hwsim

/-- What the kernel answers while a frame is sent: `room` is for the message in the socket, `copied` says for which
radios there is memory, `bitrate` is that of the rate. -/
structure TxEnv where
  msg : MsgOutcome
  room : Bool
  tsfRaw : UInt64
  copied : Int → Bool
  bitrate : Nat

/-- The attributes of `HWSIM_CMD_TX_INFO_FRAME` -/
structure TxInfoAttrs where
  addrTransmitter : Option MacAddr
  flags : Option UInt32
  cookie : Option UInt64
  signal : Option UInt32
  txInfo : Option (Vector HwsimTxRate 4)

/-- A call of `ieee80211_tx_status_irqsafe`, with the one of `mac80211_hwsim_monitor_ack` before it -/
structure TxReport where
  radio : Int
  skb : PendingSkb
  rates : Vector HwsimTxRate 4
  ackSignal : UInt32
  statAck : Bool
  monitorAck : Option (Option Nat × MacAddr)

/-- The attributes of a `HWSIM_CMD_FRAME` that a daemon sends -/
structure ClonedAttrs where
  addrReceiver : Option MacAddr
  frame : Option (List UInt8)
  rxRate : Option UInt32
  signal : Option UInt32
  freq : Option UInt32

/-- `IEEE80211_MAX_DATA_LEN` -/
def maxDataLen : Nat := 2304

/-! ### The source -/

namespace HwsimSys

def getHwsimDataRefFromAddr (s : HwsimSys) (addr : MacAddr) : Option Mac80211HwsimData :=
  s.hwsimRadios.find? fun data => data.secondAddr = addr

/-- The radio behind `hw->priv` -/
def radioAt (s : HwsimSys) (idx : Int) : Option Mac80211HwsimData := s.wiphys.find? fun data => data.idx = idx

/-- The radio after an assignment to its fields -/
def put (s : HwsimSys) (data : Mac80211HwsimData) : HwsimSys :=
  s.mapWiphys fun r => if r.idx = data.idx then data else r

/-- `hwsim_unicast_netgroup`; `room` says that the socket has room. -/
def hwsimUnicastNetgroup (s : HwsimSys) (data : Mac80211HwsimData) (portid : UInt32) (room : Bool) : Int :=
  match s.nets.find? fun net => data.netgroup = net.netgroup with
  | none => -2
  | some net => if (net.net, portid) ∈ s.sockets then if room then 0 else -11 else -111

def hwsimTxInfoFrameReceivedNl (s : HwsimSys) (net : HwsimNet) (sndPortid : UInt32) (attrs : TxInfoAttrs) :
    HwsimSys × Int × Option TxReport :=
  match attrs.addrTransmitter, attrs.flags, attrs.cookie, attrs.signal, attrs.txInfo with
  | some src, some hwsimFlags, some retSkbCookie, some signal, some txAttempts =>
    match s.getHwsimDataRefFromAddr src with
    | none => (s, -22, none)
    | some data2 =>
      if net.netgroup ≠ data2.netgroup then (s, -22, none)
      else if sndPortid ≠ data2.wmediumd then (s, -22, none)
      else match data2.unlink retSkbCookie with
        | none => (s, -22, none)
        | some (skb, data2) =>
          let acked := hwsimFlags &&& txCtlNoAck = 0 ∧ hwsimFlags &&& txStatAck ≠ 0
          (s.put data2, 0,
            some { radio := data2.idx, skb, rates := txAttempts, ackSignal := signal, statAck := acked,
                   monitorAck := if acked ∧ 16 ≤ skb.frame.length then
                     some (data2.channel, addr2 (skbData skb.frame)) else none })
  | _, _, _, _, _ => (s, -22, none)

/-- `hwsim_cloned_frame_received_nl`; `none` when the frequency is read through a null pointer. -/
def hwsimClonedFrameReceivedNl (s : HwsimSys) (net : HwsimNet) (sndPortid : UInt32) (attrs : ClonedAttrs) (alloc : Bool) :
    Option (HwsimSys × Int × Option Received) :=
  match attrs.addrReceiver, attrs.frame, attrs.rxRate, attrs.signal with
  | some dst, some frame, some rxRate, some signal =>
    if !alloc then some (s, -22, none)
    else if maxDataLen < frame.length then some (s, -22, none)
    else match s.getHwsimDataRefFromAddr dst with
      | none => some (s, -22, none)
      | some data2 =>
        if net.netgroup ≠ data2.netgroup then some (s, -22, none)
        else if sndPortid ≠ data2.wmediumd then some (s, -22, none)
        else if data2.idle || !data2.started then some (s, -22, none)
        else data2.channel.map fun channel =>
          -- `rx_status.freq` has 16 bits
          let freq : Option Nat := attrs.freq.map fun f => f.toUInt16.toNat
          if freq.any fun f => f ≠ channel ∧ data2.tmpChan ≠ some f then (s, -22, none)
          else
            let status : RxStatus :=
              { mactime := 0, freq := freq.getD channel,
                rateIdx := rxRate.toUInt8, nss := 0, encoding := .legacy, bw := .bw20, shortGi := false,
                signal := signal.toUInt8.toInt8 }
            (s.put (data2.count frame.length), 0, some ⟨data2.idx, frame, status⟩)
  | _, _, _, _ => some (s, -22, none)

end HwsimSys

/-- `cpu_to_le64(ts)` in the `timestamp` of a beacon or of a probe response -/
def stamp (data : List UInt8) (ts : UInt64) : List UInt8 :=
  ((skbData data).write 24 ((List.range 8).map fun i => (ts >>> UInt64.ofNat (8 * i)).toUInt8)).read 0 data.length

namespace Mac80211HwsimData

/-- `channel` in `mac80211_hwsim_tx`; the outer `none` is a null pointer for the interface. -/
def txChannel (data : Mac80211HwsimData) (skb : TxSkb) : Option (Option Nat) :=
  if !data.useChanctx then some data.channel
  else if skb.hwQueue = 4 then some data.tmpChan
  else skb.vif.map (·.chanctx)

/-- The transmission time of a frame's header -/
def fakeTime (data : Mac80211HwsimData) (tsf : UInt64) (bitrate : Nat) : UInt64 :=
  tsf + data.tsfOffset + UInt64.ofNat (24 * 8 * 10 / bitrate)

/-- `rx_pkts` and `rx_bytes` after the loop of `hwsim_mon_xmit` -/
def monCount (out : Xmit) (r : Mac80211HwsimData) : Mac80211HwsimData :=
  (out.received.filter fun x => x.radio = r.idx).foldl (fun r x => r.count x.bytes.length) r

end Mac80211HwsimData

/-- The driver, and the history of the radio with each number -/
structure Air where
  sys : HwsimSys
  history : Int → RadioHistory

/-- `enqueue` is the end of `mac80211_hwsim_tx_frame_nl`. `race` stands for calls that count up the fields of a radio at
the same time. -/
inductive AirAct where
  | other (a : HwsimAct)
  | callback (idx : Int) (c : Callback)
  | tx (idx : Int) (skb : TxSkb) (env : TxEnv)
  | txFrame (idx : Int) (skb : TxSkb) (chan : Nat) (env : TxEnv)
  | beacon (idx : Int) (skb : TxSkb) (chan : Nat) (env : TxEnv)
  | enqueue (idx : Int) (k : Nat)
  | txInfo (net : Nat) (portid : UInt32) (attrs : TxInfoAttrs)
  | clonedFrame (net : Nat) (portid : UInt32) (attrs : ClonedAttrs) (alloc : Bool)
  | monXmit (ps pagedRx : Bool) (skb : Mem UInt8) (len : Nat) (allocs : Int → Allocs)
  | race (idx : Int) (u : Unlocked)

namespace Air

def load (startingMacAddr : Int) : Air := ⟨.load startingMacAddr, fun _ => .empty⟩

/-- The histories after some frames were received -/
def receive (history : Int → RadioHistory) (source : FrameSource) (rx : List (Int × List UInt8)) (i : Int) : RadioHistory :=
  (rx.filter fun x => x.1 = i).foldl (fun h x => h.receive source x.2) (history i)

/-- `mac80211_hwsim_tx_frame_nl` up to `skb_queue_tail` -/
def sendNl (s : Air) (data : Mac80211HwsimData) (skb : TxSkb) (env : TxEnv) : Option Air :=
  (data.mac80211HwsimTxFrameNl skb env.msg (s.sys.hwsimUnicastNetgroup data data.wmediumd env.room)).map fun out =>
    { sys := s.sys.put out.data,
      history := Function.update s.history data.idx ((s.history data.idx).call (withPm data.ps skb.data) out) }

/-- `mac80211_hwsim_tx_frame_no_nl` -/
def sendNoNl (s : Air) (data : Mac80211HwsimData) (skb : TxSkb) (chan : Nat) (env : TxEnv) : Air :=
  let d := mac80211HwsimTxFrameNoNl data skb chan env.tsfRaw env.copied s.sys.hwsimRadios
  { sys := { s.sys with hwsimRadios := d.hwsimRadios },
    history := receive s.history (.radio data.netgroup) (d.received.map fun x => (x.radio, x.data)) }

/-- `mac80211_hwsim_tx_frame` -/
def mac80211HwsimTxFrame (s : Air) (data : Mac80211HwsimData) (skb : TxSkb) (chan : Nat) (env : TxEnv) : Option Air :=
  if data.wmediumd ≠ 0 then s.sendNl data skb env else some (s.sendNoNl data skb chan env)

/-- `mac80211_hwsim_tx`, which counts the frame when there is no daemon -/
def mac80211HwsimTx (s : Air) (data : Mac80211HwsimData) (skb : TxSkb) (env : TxEnv) : Option Air :=
  if skb.data.length < 10 then some s
  else (data.txChannel skb).bind fun channel =>
    match channel with
    | none => some s
    | some chan =>
      if data.idle && data.tmpChan.isNone then some s
      else
        let skb := if 24 + 8 ≤ skb.data.length ∧ isProbeResp (skbData skb.data) then
          { skb with data := stamp skb.data (data.fakeTime env.tsfRaw env.bitrate) } else skb
        if data.wmediumd ≠ 0 then s.sendNl data skb env
        else
          let data := { data with txPkts := data.txPkts + 1, txBytes := data.txBytes + UInt64.ofNat skb.data.length }
          let h := s.history data.idx
          some (sendNoNl { sys := s.sys.put data,
                           history := Function.update s.history data.idx { h with perfect := h.perfect ++ [skb.data] } }
            data skb chan env)

/-- `mac80211_hwsim_beacon_tx` -/
def mac80211HwsimBeaconTx (s : Air) (data : Mac80211HwsimData) (skb : TxSkb) (chan : Nat) (env : TxEnv) : Option Air :=
  let data := { data with absBcnTs := env.tsfRaw }
  ({ s with sys := s.sys.put data } : Air).mac80211HwsimTxFrame data
    { skb with data := stamp skb.data (data.fakeTime data.absBcnTs env.bitrate) } chan env

def step (s : Air) : AirAct → Option Air
  | .other a => (s.sys.step a).map fun sys => { s with sys }
  | .callback idx c => (s.sys.radioAt idx).map fun data => { s with sys := s.sys.put (data.callback c) }
  | .tx idx skb env => (s.sys.radioAt idx).bind fun data => s.mac80211HwsimTx data skb env
  | .txFrame idx skb chan env => (s.sys.radioAt idx).bind fun data => s.mac80211HwsimTxFrame data skb chan env
  | .beacon idx skb chan env => (s.sys.radioAt idx).bind fun data => s.mac80211HwsimBeaconTx data skb chan env
  | .enqueue idx k => (s.sys.radioAt idx).bind fun data => ((s.history idx).sending[k]?).map fun skb =>
    { sys := s.sys.put (data.enqueue skb), history := Function.update s.history idx ((s.history idx).enqueue skb) }
  | .txInfo net portid attrs =>
    if (net, portid) ∈ s.sys.sockets then
      (s.sys.netOf net).map fun n => match s.sys.hwsimTxInfoFrameReceivedNl n portid attrs with
        | (sys, _, some out) => { sys, history := Function.update s.history out.radio ((s.history out.radio).report out.skb) }
        | (sys, _, none) => { s with sys }
    else none
  | .clonedFrame net portid attrs alloc =>
    if (net, portid) ∈ s.sys.sockets then
      (s.sys.netOf net).bind fun n => (s.sys.hwsimClonedFrameReceivedNl n portid attrs alloc).map fun
        | (sys, _, some rx) => { sys, history := receive s.history (.daemon n.netgroup) [(rx.radio, rx.data)] }
        | (sys, _, none) => { s with sys }
    else none
  | .monXmit ps pagedRx skb len allocs =>
    let out := hwsimMonXmit ps pagedRx skb len (s.sys.hwsimRadios.map fun r => (r.toHwsimData, allocs r.idx))
    some { sys := { s.sys with hwsimRadios := s.sys.hwsimRadios.map (·.monCount out) },
           history := receive s.history .monitor (out.received.map fun x => (x.radio, x.bytes)) }
  | .race idx u => (s.sys.radioAt idx).map fun data =>
    { sys := s.sys.put (data.race u), history := Function.update s.history idx { s.history idx with raced := true } }

end Air

/-! ### The radios of the driver -/

namespace HwsimSys
variable {start : Int} {s t : HwsimSys} {data data' r : Mac80211HwsimData} {idx : Int} {a : HwsimAct}

theorem radioAt_eq_some (h : s.radioAt idx = some data) : data ∈ s.wiphys ∧ data.idx = idx :=
  ⟨List.mem_of_find?_eq_some h, by simpa using List.find?_some h⟩

theorem mem_of_addr {addr : MacAddr} (h : s.getHwsimDataRefFromAddr addr = some data) :
    data ∈ s.hwsimRadios ∧ data.secondAddr = addr :=
  ⟨List.mem_of_find?_eq_some h, by simpa using List.find?_some h⟩

theorem mem_put (hr : r ∈ (s.put data).wiphys) : r = data ∨ r ∈ s.wiphys ∧ r.idx ≠ data.idx := by
  rw [put, wiphys_mapWiphys] at hr
  obtain ⟨r', hr', rfl⟩ := List.mem_map.1 hr
  split
  · exact .inl rfl
  · next hne => exact .inr ⟨hr', hne⟩

/-- The fields of a radio that the netlink commands read or write are left alone. -/
structure Same (r r' : Mac80211HwsimData) : Prop extends Keeps r r' where
  wmediumd : r'.wmediumd = r.wmediumd

theorem Inv.mapRadios (h : s.Inv start) {f : Mac80211HwsimData → Mac80211HwsimData}
    (hf : ∀ r ∈ s.hwsimRadios, Same r (f r)) : ({ s with hwsimRadios := s.hwsimRadios.map f } : HwsimSys).Inv start := by
  obtain ⟨hdriver, hbound, hnodup⟩ := h.wiphys_congr (t := { s with hwsimRadios := s.hwsimRadios.map f }) rfl rfl (by
    simp only [wiphys, List.map_append, List.map_map]
    exact congrArg (· ++ _ ++ _) (List.map_congr_left fun r hr => (hf r hr).radio))
  refine ⟨hdriver, hbound, hnodup, h.nets, h.netgroups, h.netgroup, h.daemon, h.ports,
    List.forall_mem_map.2 fun r hr hne => ?_, h.perfect⟩
  rw [(hf r hr).wmediumd] at hne ⊢
  rw [(hf r hr).channels, (hf r hr).netgroup]
  exact h.registered r hr hne

theorem Inv.put (h : s.Inv start) (hdata : data ∈ s.wiphys) (hsame : Same data data') : (s.put data').Inv start := by
  have hf : ∀ r ∈ s.wiphys, Same r (if r.idx = data'.idx then data' else r) := by
    intro r hr
    split
    · next heq =>
      obtain rfl := h.idx_inj hr hdata (heq.trans hsame.idx)
      exact hsame
    · exact ⟨⟨rfl, rfl, rfl⟩, rfl⟩
  exact h.mapWiphys (fun r hr => (hf r hr).toKeeps) fun r hr => (hf r hr).wmediumd

/-- The radio was there before, but may belong somewhere else now, or it is new. -/
def Origin (s : HwsimSys) (r : Mac80211HwsimData) : Prop :=
  (∃ r' ∈ s.wiphys, ∃ net wmediumd, r = { r' with net, wmediumd }) ∨
    ∃ n portid param hwname, r = s.radioData n portid param hwname

theorem Origin.old (hr : r ∈ s.wiphys) : s.Origin r := .inl ⟨r, hr, r.net, r.wmediumd, rfl⟩

theorem origin_newRadio (n : HwsimNet) (portid : UInt32) (param : NewRadio) (hwname : String) (o : NewRadioOutcome) :
    s.hwsimRadioIdx ≤ (s.mac80211HwsimNewRadio n portid param hwname o).1.hwsimRadioIdx ∧
      ∀ r ∈ (s.mac80211HwsimNewRadio n portid param hwname o).1.wiphys, s.Origin r := by
  have hnext : s.hwsimRadioIdx ≤ s.hwsimRadioIdx + 1 := Int.le_of_lt (Int.lt_succ_self _)
  unfold mac80211HwsimNewRadio
  split
  · exact ⟨Int.le_refl _, fun r hr => .old hr⟩
  · cases o with
    | ok =>
      refine ⟨hnext, fun r hr => ?_⟩
      rw [wiphys, ← List.append_assoc] at hr
      rcases List.mem_append.1 hr with hr | hr
      · exact .old hr
      · exact .inr ⟨n, portid, param, hwname, List.mem_singleton.1 hr⟩
    | _ => exact ⟨hnext, fun r hr => .old hr⟩

theorem origin_listDel (p : Mac80211HwsimData → Bool) : ∀ r ∈ (s.listDel p).wiphys, s.Origin r :=
  fun _ hr => .old ((wiphys_listDel s p).mem_iff.1 hr)

theorem origin_registerWmediumd (n : HwsimNet) (portid : UInt32) :
    ∀ r ∈ (s.hwsimRegisterWmediumd n portid).wiphys, s.Origin r := by
  intro r hr
  rcases mem_wiphys.1 hr with hr | hr
  · obtain ⟨r', hr', rfl⟩ := List.mem_map.1 hr
    unfold setWmediumd
    split
    · exact .inl ⟨r', mem_wiphys_of_list hr', r'.net, portid, rfl⟩
    · exact .old (mem_wiphys_of_list hr')
  · exact .old (mem_wiphys.2 (.inr hr))

theorem origin_netlinkNotify (n : HwsimNet) (portid : UInt32) :
    s.hwsimRadioIdx ≤ (s.mac80211HwsimNetlinkNotify n portid).hwsimRadioIdx ∧
      ∀ r ∈ (s.mac80211HwsimNetlinkNotify n portid).wiphys, s.Origin r := by
  unfold mac80211HwsimNetlinkNotify
  simp only
  split
  · refine ⟨Int.le_refl _, fun r hr => ?_⟩
    rcases origin_registerWmediumd n 0 r hr with ⟨r', hr', heq⟩ | hnew
    · exact .inl ⟨r', (wiphys_listDel s _).mem_iff.1 hr', heq⟩
    · exact .inr hnew
  · exact ⟨Int.le_refl _, origin_listDel _⟩

theorem origin_switchNetns (p : Mac80211HwsimData → Bool) (net : Nat) :
    ∀ r ∈ (s.mapWiphys (Hwsim.switchNetns p net)).wiphys, s.Origin r := by
  rw [wiphys_mapWiphys]
  refine List.forall_mem_map.2 fun r hr => ?_
  rw [switchNetns_eq]
  exact .inl ⟨r, hr, _, r.wmediumd, rfl⟩

theorem step_radios (hs : s.step a = some t) :
    s.hwsimRadioIdx ≤ t.hwsimRadioIdx ∧ ∀ r ∈ t.wiphys, s.Origin r := by
  cases a with
  | initRadio param hwname o =>
    obtain ⟨n, -, rfl⟩ := Option.map_eq_some_iff.1 hs
    exact origin_newRadio n 0 param hwname o
  | append idx =>
    cases hs
    exact ⟨Int.le_refl _, fun r hr => .old ((wiphys_listAddTail s idx).mem_iff.1 hr)⟩
  | unregister idx =>
    cases hs
    refine ⟨Int.le_refl _, fun r hr => .old ?_⟩
    exact ((List.filter_sublist.append_left _).append_right _).subset hr
  | initNet net =>
    obtain ⟨-, hs⟩ := Option.ite_none_right_eq_some.1 hs
    cases hs
    exact ⟨Int.le_refl _, fun r hr => .old hr⟩
  | exitNet net =>
    obtain ⟨-, hs⟩ := Option.ite_none_right_eq_some.1 hs
    obtain ⟨n, -, rfl⟩ := Option.map_eq_some_iff.1 hs
    refine ⟨Int.le_refl _, fun r hr => ?_⟩
    rcases origin_switchNetns (s := s.hwsimExitNet net n.netgroup) (fun r => r.net = net) 0 r hr with
      ⟨r', hr', heq⟩ | hnew
    · exact .inl ⟨r', (wiphys_listDel s _).mem_iff.1 hr', heq⟩
    · exact .inr hnew
  | bind net portid =>
    obtain ⟨-, hs⟩ := Option.ite_none_right_eq_some.1 hs
    cases hs
    exact ⟨Int.le_refl _, fun r hr => .old hr⟩
  | release net portid =>
    obtain ⟨-, hs⟩ := Option.ite_none_right_eq_some.1 hs
    obtain ⟨n, -, rfl⟩ := Option.map_eq_some_iff.1 hs
    exact origin_netlinkNotify (s := { s with sockets := _ }) n portid
  | releaseOther net portid =>
    obtain ⟨-, hs⟩ := Option.ite_none_right_eq_some.1 hs
    obtain ⟨n, -, rfl⟩ := Option.map_eq_some_iff.1 hs
    exact origin_netlinkNotify n portid
  | command net portid c =>
    obtain ⟨-, hs⟩ := Option.ite_none_right_eq_some.1 hs
    obtain ⟨n, -, rfl⟩ := Option.map_eq_some_iff.1 hs
    rcases doit_cases s n portid c with he | ⟨param, hwname, o, he⟩ | ⟨p, he⟩ | ⟨-, -, he⟩ <;> rw [he]
    · exact ⟨Int.le_refl _, fun r hr => .old hr⟩
    · exact origin_newRadio n portid param hwname o
    · exact ⟨Int.le_refl _, origin_listDel p⟩
    · exact ⟨Int.le_refl _, origin_registerWmediumd n portid⟩
  | switchNetns idx net =>
    obtain ⟨n, -, rfl⟩ := Option.map_eq_some_iff.1 hs
    exact ⟨Int.le_refl _, origin_switchNetns _ n.net⟩

end HwsimSys

/-! ### The commands of a daemon -/

namespace HwsimSys
variable {s : HwsimSys} {n : HwsimNet} {portid : UInt32} {data : Mac80211HwsimData}

/-- An answer changes nothing, or the daemon of a radio's netgroup takes a frame from its queue. -/
theorem txInfo_cases (s : HwsimSys) (n : HwsimNet) (portid : UInt32) (attrs : TxInfoAttrs) :
    s.hwsimTxInfoFrameReceivedNl n portid attrs = (s, -22, none) ∨
      ∃ src cookie data skb data', ∃ out : TxReport, attrs.addrTransmitter = some src ∧ attrs.cookie = some cookie ∧
        s.getHwsimDataRefFromAddr src = some data ∧ n.netgroup = data.netgroup ∧ portid = data.wmediumd ∧
        data.unlink cookie = some (skb, data') ∧ out.radio = data'.idx ∧ out.skb = skb ∧
        s.hwsimTxInfoFrameReceivedNl n portid attrs = (s.put data', 0, some out) := by
  obtain ⟨addrTransmitter, flags, cookie, signal, txInfo⟩ := attrs
  unfold hwsimTxInfoFrameReceivedNl
  split
  · next src hwsimFlags retSkbCookie signal txAttempts hsrc _ hcookie _ _ =>
    cases hdata : s.getHwsimDataRefFromAddr src with
    | none => exact .inl rfl
    | some data =>
      simp only
      split
      · exact .inl rfl
      next hgroup =>
      split
      · exact .inl rfl
      next hport =>
      cases hunlink : data.unlink retSkbCookie with
      | none => exact .inl rfl
      | some p =>
        exact .inr ⟨src, retSkbCookie, data, p.1, p.2, _, hsrc, hcookie, hdata, not_not.1 hgroup, not_not.1 hport,
          hunlink, rfl, rfl, rfl⟩
  · exact .inl rfl

/-- A frame from a daemon is thrown away, or goes to a radio of its netgroup. -/
theorem clonedFrame_cases {attrs : ClonedAttrs} {alloc : Bool} {out : HwsimSys × Int × Option Received}
    (hout : s.hwsimClonedFrameReceivedNl n portid attrs alloc = some out) :
    out = (s, -22, none) ∨
      ∃ dst frame data, ∃ rx : Received, attrs.addrReceiver = some dst ∧ attrs.frame = some frame ∧
        frame.length ≤ maxDataLen ∧ s.getHwsimDataRefFromAddr dst = some data ∧ n.netgroup = data.netgroup ∧
        portid = data.wmediumd ∧ data.started = true ∧ data.idle = false ∧ rx.radio = data.idx ∧ rx.data = frame ∧
        out = (s.put (data.count frame.length), 0, some rx) := by
  unfold hwsimClonedFrameReceivedNl at hout
  split at hout
  · next dst frame rxRate signal hdst hframe _ _ =>
    split at hout
    · cases hout; exact .inl rfl
    split at hout
    · cases hout; exact .inl rfl
    next hlen =>
    cases hdata : s.getHwsimDataRefFromAddr dst with
    | none => rw [hdata] at hout; cases hout; exact .inl rfl
    | some data =>
      rw [hdata] at hout
      simp only at hout
      split at hout
      · cases hout; exact .inl rfl
      next hgroup =>
      split at hout
      · cases hout; exact .inl rfl
      next hport =>
      split at hout
      · cases hout; exact .inl rfl
      next hready =>
      obtain ⟨channel, -, rfl⟩ := Option.map_eq_some_iff.1 hout
      split
      · exact .inl rfl
      · simp only [Bool.or_eq_true, not_or, Bool.not_eq_true, Bool.not_eq_false'] at hready
        exact .inr ⟨dst, frame, data, _, hdst, hframe, Nat.le_of_not_lt hlen, hdata, not_not.1 hgroup, not_not.1 hport,
          hready.2, hready.1, rfl, rfl, rfl⟩
  · cases hout; exact .inl rfl

theorem clonedFrame_refused (h : ∀ data ∈ s.hwsimRadios, n.netgroup = data.netgroup → portid ≠ data.wmediumd)
    (attrs : ClonedAttrs) (alloc : Bool) : s.hwsimClonedFrameReceivedNl n portid attrs alloc = some (s, -22, none) := by
  unfold hwsimClonedFrameReceivedNl
  split
  · next dst frame rxRate signal hdst hframe _ _ =>
    split
    · rfl
    split
    · rfl
    cases hdata : s.getHwsimDataRefFromAddr dst with
    | none => rfl
    | some data =>
      simp only
      split
      · rfl
      next hgroup =>
      exact if_pos (h data (mem_of_addr hdata).1 (not_not.1 hgroup))
  · rfl

end HwsimSys

end Hwsim
end WlanxVms
