import WlanxVms.Hwsim.Air

/-!
# What the radios get to know of each other (`mac80211_hwsim.c`)

What the steps of `Air` keep, by what each of them does to one radio and its history. Where the frames of a radio go is
counted, a daemon's answer finds the frame it was asked about, and frames stay in their netgroup. The counters and the
cookies are right only for a radio whose fields were never counted up by two calls at the same time.
-/

namespace WlanxVms
namespace Hwsim

/-! ### What every run keeps -/

/-- What holds of a radio with the history `h`: it gets frames from its own netgroup and from the monitor
interface only. -/
structure RadioOk (r : Mac80211HwsimData) (h : RadioHistory) : Prop where
  psValid : r.PsValid
  accounts : Accounts r h
  counters : h.raced = false → Counters r h
  cookies : h.raced = false → h.given.length < 2 ^ 64 → Cookies r h
  isolated : ∀ x ∈ h.received, x.1 = .monitor ∨ x.1 = .radio r.netgroup ∨ x.1 = .daemon r.netgroup

section
variable {r r' : Mac80211HwsimData} {h : RadioHistory} {source : FrameSource} {frame : List UInt8}

theorem RadioOk.receive (hok : RadioOk r h)
    (hsource : source = .monitor ∨ source = .radio r.netgroup ∨ source = .daemon r.netgroup) (frame : List UInt8) :
    RadioOk (r.count frame.length) (h.receive source frame) := by
  refine ⟨⟨hok.psValid.ps, hok.psValid.psPollPending⟩, ?_, fun hraced => (hok.counters hraced).receive source frame,
    fun hraced hlt => ?_, List.forall_mem_append.2 ⟨hok.isolated, List.forall_mem_singleton.2 hsource⟩⟩
  · obtain ⟨hgiven, hasked, hmost, hpending⟩ := hok.accounts
    exact ⟨hgiven, hasked, hmost, hpending⟩
  · obtain ⟨hbound, hsorted, htaken⟩ := hok.cookies hraced hlt
    exact ⟨hbound, hsorted, htaken⟩

theorem RadioOk.congr (hok : RadioOk r h) (hps : r'.PsValid) (hnetgroup : r'.netgroup = r.netgroup)
    (hpending : r'.pending = r.pending) (hcookie : r'.pendingCookie = r.pendingCookie)
    (htx : r'.txPkts = r.txPkts ∧ r'.txBytes = r.txBytes ∧ r'.txDropped = r.txDropped ∧ r'.txFailed = r.txFailed)
    (hrx : r'.rxPkts = r.rxPkts ∧ r'.rxBytes = r.rxBytes) : RadioOk r' h := by
  obtain ⟨htxPkts, htxBytes, htxDropped, htxFailed⟩ := htx
  obtain ⟨hrxPkts, hrxBytes⟩ := hrx
  have ha := hok.accounts
  refine ⟨hps, ⟨ha.given, ?_, ha.most, ?_⟩, fun hraced => ?_, fun hraced hlt => ?_, ?_⟩
  · rw [hpending]; exact ha.asked
  · rw [hpending]; exact ha.pending
  · have hc := hok.counters hraced
    refine ⟨?_, ?_, ?_, ?_, ?_, ?_⟩
    · rw [htxFailed]; exact hc.txFailed
    · rw [htxDropped]; exact hc.txDropped
    · rw [htxPkts]; exact hc.txPkts
    · rw [htxBytes]; exact hc.txBytes
    · rw [hrxPkts]; exact hc.rxPkts
    · rw [hrxBytes]; exact hc.rxBytes
  · obtain ⟨hbound, hsorted, htaken⟩ := hok.cookies hraced hlt
    rw [← hcookie] at hbound htaken
    exact ⟨hbound, hsorted, htaken⟩
  · rw [hnetgroup]; exact hok.isolated

theorem RadioOk.new (s : HwsimSys) (n : HwsimNet) (portid : UInt32) (param : NewRadio) (hwname : String) :
    RadioOk (s.radioData n portid param hwname) .empty := by
  refine ⟨⟨by simp [HwsimSys.radioData], rfl⟩, ⟨.refl _, .refl _, Nat.le_refl 0, ?_⟩, fun _ => ⟨rfl, rfl, rfl, rfl, rfl, rfl⟩,
    fun _ _ => ⟨?_, ?_, ?_⟩, ?_⟩
  · show 0 < 200
    decide
  · exact Nat.le_refl 0
  · exact .nil
  · exact fun skb hskb => absurd hskb List.not_mem_nil
  · exact fun x hx => absurd hx List.not_mem_nil

end

namespace Mac80211HwsimData
variable {r : Mac80211HwsimData}

theorem callback_ok {h : RadioHistory} (hok : RadioOk r h) (c : Callback) :
    HwsimSys.Same r (r.callback c) ∧ RadioOk (r.callback c) h := by
  have hps := hok.psValid.callback c
  cases c with
  | swScan macAddr =>
    revert hps
    simp only [callback]
    split
    · exact fun hps => ⟨⟨⟨rfl, rfl, rfl⟩, rfl⟩, hok⟩
    · exact fun hps => ⟨⟨⟨rfl, rfl, rfl⟩, rfl⟩, hok.congr hps rfl rfl rfl ⟨rfl, rfl, rfl, rfl⟩ ⟨rfl, rfl⟩⟩
  | setTsf tsfRaw tsf =>
    revert hps
    simp only [callback, mac80211HwsimSetTsf]
    split
    · exact fun hps => ⟨⟨⟨rfl, rfl, rfl⟩, rfl⟩, hok.congr hps rfl rfl rfl ⟨rfl, rfl, rfl, rfl⟩ ⟨rfl, rfl⟩⟩
    · exact fun hps => ⟨⟨⟨rfl, rfl, rfl⟩, rfl⟩, hok.congr hps rfl rfl rfl ⟨rfl, rfl, rfl, rfl⟩ ⟨rfl, rfl⟩⟩
  | psWrite val =>
    obtain ⟨ps, hwrite⟩ : ∃ ps, (r.hwsimFopsPsWrite val).1 = { r with ps } := by
      unfold hwsimFopsPsWrite
      split
      · exact ⟨r.ps, rfl⟩
      · split
        · split <;> exact ⟨r.ps, rfl⟩
        · exact ⟨_, rfl⟩
    revert hps
    simp only [callback, hwrite]
    exact fun hps => ⟨⟨⟨rfl, rfl, rfl⟩, rfl⟩, hok.congr hps rfl rfl rfl ⟨rfl, rfl, rfl, rfl⟩ ⟨rfl, rfl⟩⟩
  | _ => exact ⟨⟨⟨rfl, rfl, rfl⟩, rfl⟩, hok.congr hps rfl rfl rfl ⟨rfl, rfl, rfl, rfl⟩ ⟨rfl, rfl⟩⟩

theorem count_ok {h : RadioHistory} (hok : RadioOk r h) (rx : List RxFrame) :
    HwsimSys.Same r (rx.foldl (fun r x => r.count x.bytes.length) r) ∧
      RadioOk (rx.foldl (fun r x => r.count x.bytes.length) r)
        ((rx.map fun x => (x.radio, x.bytes)).foldl (fun h x => h.receive .monitor x.2) h) := by
  induction rx generalizing r h with
  | nil => exact ⟨⟨⟨rfl, rfl, rfl⟩, rfl⟩, hok⟩
  | cons x rx ih =>
    obtain ⟨hsame, hok'⟩ := ih (hok.receive (.inl rfl) x.bytes)
    exact ⟨⟨⟨hsame.radio, hsame.netgroup, hsame.channels⟩, hsame.wmediumd⟩, hok'⟩

end Mac80211HwsimData

namespace Air
variable {start : Int} {s t : Air} {data data' r : Mac80211HwsimData} {h : RadioHistory} {source : FrameSource}
  {skb : TxSkb} {chan : Nat} {env : TxEnv}

structure Inv (start : Int) (s : Air) : Prop where
  sys : s.sys.Inv start
  radios : ∀ r ∈ s.sys.wiphys, RadioOk r (s.history r.idx)
  fresh : ∀ i, s.sys.hwsimRadioIdx ≤ i → s.history i = .empty

theorem Inv.load (start : Int) : (Air.load start).Inv start :=
  ⟨.load start, fun _ hr => absurd hr List.not_mem_nil, fun _ _ => rfl⟩

theorem Inv.put (hi : s.Inv start) (hdata : data ∈ s.sys.wiphys) (hsame : HwsimSys.Same data data')
    (hok : RadioOk data' h) :
    ({ sys := s.sys.put data', history := Function.update s.history data.idx h } : Air).Inv start := by
  refine ⟨hi.sys.put hdata hsame, fun r hr => ?_, fun i hle => ?_⟩
  · rcases HwsimSys.mem_put hr with rfl | ⟨hr, hne⟩
    · show RadioOk r (Function.update s.history data.idx h r.idx)
      rw [hsame.idx, Function.update_self]
      exact hok
    · show RadioOk r (Function.update s.history data.idx h r.idx)
      rw [Function.update_of_ne (hsame.idx ▸ hne)]
      exact hi.radios r hr
  · show Function.update s.history data.idx h i = .empty
    have hlt := hi.sys.bound data hdata
    have hle : s.sys.hwsimRadioIdx ≤ i := hle
    rw [Function.update_of_ne (by omega)]
    exact hi.fresh i hle

theorem Inv.putSame (hi : s.Inv start) (hdata : data ∈ s.sys.wiphys) (hsame : HwsimSys.Same data data')
    (hok : RadioOk data' (s.history data.idx)) : ({ s with sys := s.sys.put data' } : Air).Inv start := by
  have hput := hi.put hdata hsame hok
  rwa [Function.update_eq_self] at hput

theorem receive_of_ne {history : Int → RadioHistory} {rx : List (Int × List UInt8)} {i : Int} (h : ∀ x ∈ rx, x.1 ≠ i) :
    receive history source rx i = history i := by
  have hnone : rx.filter (fun x => x.1 = i) = [] := List.filter_eq_nil_iff.2 fun x hx => by simpa using h x hx
  rw [receive, hnone]
  rfl

theorem Inv.receive (hi : s.Inv start) {f : Mac80211HwsimData → Mac80211HwsimData} {rx : List (Int × List UInt8)}
    (hsame : ∀ r ∈ s.sys.hwsimRadios, HwsimSys.Same r (f r))
    (hok : ∀ r ∈ s.sys.hwsimRadios, RadioOk (f r) (receive s.history source rx r.idx))
    (hrx : ∀ x ∈ rx, ∃ r ∈ s.sys.hwsimRadios, r.idx = x.1) :
    ({ sys := { s.sys with hwsimRadios := s.sys.hwsimRadios.map f },
       history := Air.receive s.history source rx } : Air).Inv start := by
  refine ⟨hi.sys.mapRadios hsame, fun r hr => ?_, fun i hle => ?_⟩
  · rw [HwsimSys.wiphys, List.append_assoc] at hr
    rcases List.mem_append.1 hr with hr | hr
    · obtain ⟨r', hr', rfl⟩ := List.mem_map.1 hr
      rw [(hsame r' hr').idx]
      exact hok r' hr'
    · -- none of the frames is for a radio that is not in the list
      have hne : ∀ x ∈ rx, x.1 ≠ r.idx := by
        intro x hx heq
        obtain ⟨r', hr', hidx⟩ := hrx x hx
        exact hi.sys.idx_ne hr' hr (hidx.trans heq)
      show RadioOk r (Air.receive s.history source rx r.idx)
      rw [receive_of_ne hne]
      refine hi.radios r ?_
      rw [HwsimSys.wiphys, List.append_assoc]
      exact List.mem_append_right _ hr
  · show Air.receive s.history source rx i = .empty
    have hle : s.sys.hwsimRadioIdx ≤ i := hle
    rw [receive_of_ne fun x hx heq => ?_]
    · exact hi.fresh i hle
    · obtain ⟨r, hr, hidx⟩ := hrx x hx
      have hlt := hi.sys.bound r (HwsimSys.mem_wiphys_of_list hr)
      omega

theorem filter_copies {radios : List Mac80211HwsimData} (hnodup : (radios.map (·.idx)).Nodup)
    (hr : r ∈ radios) (p : Mac80211HwsimData → Bool) (bytes : List UInt8) :
    (((radios.filter p).map fun r => (r.idx, bytes)).filter fun x => x.1 = r.idx) = if p r then [(r.idx, bytes)] else [] := by
  induction radios with
  | nil => cases hr
  | cons a radios ih =>
    obtain ⟨hfirst, hrest⟩ := List.nodup_cons.1 hnodup
    rcases List.mem_cons.1 hr with rfl | hr
    · have hothers : (((radios.filter p).map fun r => (r.idx, bytes)).filter fun x => x.1 = r.idx) = [] := by
        refine List.filter_eq_nil_iff.2 (List.forall_mem_map.2 fun x hx heq => hfirst ?_)
        have heq : x.idx = r.idx := by simpa using heq
        exact List.mem_map.2 ⟨x, List.mem_of_mem_filter hx, heq⟩
      cases hp : p r with
      | true => simp [hp, hothers]
      | false => simpa [hp] using hothers
    · have hne : ¬a.idx = r.idx := fun heq => hfirst (List.mem_map.2 ⟨r, hr, heq.symm⟩)
      cases hp : p a with
      | true => simpa [hp, hne] using ih hrest hr
      | false => simpa [hp] using ih hrest hr

/-- What a frame on the perfect medium does to a radio -/
theorem sendNoNl_eq (hi : s.Inv start) :
    s.sendNoNl data skb chan env =
      let frame := withPm data.ps skb.data
      let radios := s.sys.hwsimRadios.map fun r => if gets data chan env.copied r then r.count frame.length else r
      { sys := { s.sys with hwsimRadios := radios },
        history := Air.receive s.history (.radio data.netgroup)
          ((s.sys.hwsimRadios.filter (gets data chan env.copied)).map fun r => (r.idx, frame)) } := by
  have hvalid : ∀ r ∈ s.sys.hwsimRadios, r.PsValid :=
    fun r hr => (hi.radios r (HwsimSys.mem_wiphys_of_list hr)).psValid
  unfold sendNoNl mac80211HwsimTxFrameNoNl
  simp only [foldl_round hvalid, List.nil_append, List.map_map]
  rfl

theorem Inv.sendNoNl (hi : s.Inv start) : (s.sendNoNl data skb chan env).Inv start := by
  rw [sendNoNl_eq hi]
  refine hi.receive (fun r hr => ?_) (fun r hr => ?_) (List.forall_mem_map.2 fun r hr => ?_)
  · split <;> exact ⟨⟨rfl, rfl, rfl⟩, rfl⟩
  · have hok := hi.radios r (HwsimSys.mem_wiphys_of_list hr)
    rw [Air.receive, filter_copies hi.sys.nodup_list hr]
    split
    · next hgets =>
      have hhears : data.Hears chan r := of_decide_eq_true (Bool.and_eq_true_iff.1 hgets).1
      exact hok.receive (.inr (.inl (congrArg _ hhears.netgroup))) _
    · exact hok
  · exact ⟨r, List.mem_of_mem_filter hr, rfl⟩

theorem Inv.sendNl (hi : s.Inv start) (hdata : data ∈ s.sys.wiphys) (hs : s.sendNl data skb env = some t) :
    t.Inv start := by
  obtain ⟨out, hout, rfl⟩ := Option.map_eq_some_iff.1 hs
  have hok := hi.radios data hdata
  obtain ⟨hsame, hps, hpoll⟩ : HwsimSys.Same data out.data ∧ out.data.ps = data.ps ∧
      out.data.psPollPending = data.psPollPending := by
    obtain ⟨pending, -, -, ⟨-, cookie, -, hdata⟩ | ⟨m, -, -, -, -, -, hdata⟩⟩ := txFrameNl_cases hout
    · rw [hdata]
      exact ⟨⟨⟨rfl, rfl, rfl⟩, rfl⟩, rfl, rfl⟩
    · rw [hdata]
      exact ⟨⟨⟨rfl, rfl, rfl⟩, rfl⟩, rfl, rfl⟩
  refine hi.put hdata hsame ⟨⟨?_, ?_⟩, hok.accounts.call hout, fun hraced => ?_, fun hraced hlt => ?_, ?_⟩
  · rw [hps]; exact hok.psValid.ps
  · rw [hpoll]; exact hok.psValid.psPollPending
  · rw [RadioHistory.raced_call] at hraced
    exact (hok.counters hraced).call hout
  · rw [RadioHistory.raced_call] at hraced
    rw [RadioHistory.given_call, List.length_append, List.length_singleton] at hlt
    exact (hok.cookies hraced (by omega)).call hlt hout
  · rw [RadioHistory.received_call, hsame.netgroup]
    exact hok.isolated

theorem Inv.txFrame (hi : s.Inv start) (hdata : data ∈ s.sys.wiphys)
    (hs : s.mac80211HwsimTxFrame data skb chan env = some t) : t.Inv start := by
  unfold mac80211HwsimTxFrame at hs
  split at hs
  · exact hi.sendNl hdata hs
  · cases hs
    exact hi.sendNoNl

theorem mem_put_self (hdata : data ∈ s.sys.wiphys) (hidx : data'.idx = data.idx) : data' ∈ (s.sys.put data').wiphys := by
  rw [HwsimSys.put, HwsimSys.wiphys_mapWiphys]
  exact List.mem_map.2 ⟨data, hdata, if_pos hidx.symm⟩

theorem Inv.counted (hi : s.Inv start) (hdata : data ∈ s.sys.wiphys) (frame : List UInt8) :
    ({ sys := s.sys.put { data with txPkts := data.txPkts + 1, txBytes := data.txBytes + UInt64.ofNat frame.length },
       history := Function.update s.history data.idx
         { s.history data.idx with perfect := (s.history data.idx).perfect ++ [frame] } } : Air).Inv start := by
  have hok := hi.radios data hdata
  refine hi.put hdata ⟨⟨rfl, rfl, rfl⟩, rfl⟩ ⟨⟨hok.psValid.ps, hok.psValid.psPollPending⟩, ?_,
    fun hraced => (hok.counters hraced).perfect frame, fun hraced hlt => ?_, hok.isolated⟩
  · obtain ⟨hgiven, hasked, hmost, hpending⟩ := hok.accounts
    exact ⟨hgiven, hasked, hmost, hpending⟩
  · obtain ⟨hbound, hsorted, htaken⟩ := hok.cookies hraced hlt
    exact ⟨hbound, hsorted, htaken⟩

theorem Inv.beaconTs (hi : s.Inv start) (hdata : data ∈ s.sys.wiphys) (absBcnTs : UInt64) :
    ({ s with sys := s.sys.put { data with absBcnTs } } : Air).Inv start := by
  have hok := hi.radios data hdata
  refine hi.putSame hdata ⟨⟨rfl, rfl, rfl⟩, rfl⟩ ?_
  exact hok.congr ⟨hok.psValid.ps, hok.psValid.psPollPending⟩ rfl rfl rfl ⟨rfl, rfl, rfl, rfl⟩ ⟨rfl, rfl⟩

/-- What `mac80211_hwsim_tx` can do -/
theorem tx_cases (hs : s.mac80211HwsimTx data skb env = some t) :
    t = s ∨ ∃ skb', s.sendNl data skb' env = some t ∨ ∃ chan,
      t = sendNoNl { sys := s.sys.put { data with txPkts := data.txPkts + 1, txBytes := data.txBytes + UInt64.ofNat skb'.data.length },
                     history := Function.update s.history data.idx
                       { s.history data.idx with perfect := (s.history data.idx).perfect ++ [skb'.data] } }
        { data with txPkts := data.txPkts + 1, txBytes := data.txBytes + UInt64.ofNat skb'.data.length } skb' chan env := by
  unfold mac80211HwsimTx at hs
  split at hs
  · exact .inl (Option.some.inj hs).symm
  obtain ⟨channel, -, hs⟩ := Option.bind_eq_some_iff.1 hs
  cases channel with
  | none => exact .inl (Option.some.inj hs).symm
  | some chan =>
    simp only at hs
    split at hs
    · exact .inl (Option.some.inj hs).symm
    split at hs
    · exact .inr ⟨_, .inl hs⟩
    · exact .inr ⟨_, .inr ⟨chan, (Option.some.inj hs).symm⟩⟩

theorem Inv.tx (hi : s.Inv start) (hdata : data ∈ s.sys.wiphys) (hs : s.mac80211HwsimTx data skb env = some t) :
    t.Inv start := by
  rcases tx_cases hs with rfl | ⟨skb', hs | ⟨chan, rfl⟩⟩
  · exact hi
  · exact hi.sendNl hdata hs
  · exact (hi.counted hdata skb'.data).sendNoNl

theorem Inv.beaconTx (hi : s.Inv start) (hdata : data ∈ s.sys.wiphys)
    (hs : s.mac80211HwsimBeaconTx data skb chan env = some t) : t.Inv start :=
  (hi.beaconTs hdata env.tsfRaw).txFrame (mem_put_self hdata rfl) hs

theorem Inv.enqueue (hi : s.Inv start) (hdata : data ∈ s.sys.wiphys) {skb : PendingSkb}
    (hskb : skb ∈ (s.history data.idx).sending) :
    ({ sys := s.sys.put (data.enqueue skb),
       history := Function.update s.history data.idx ((s.history data.idx).enqueue skb) } : Air).Inv start := by
  have hok := hi.radios data hdata
  refine hi.put hdata ⟨⟨rfl, rfl, rfl⟩, rfl⟩ ⟨⟨hok.psValid.ps, hok.psValid.psPollPending⟩, hok.accounts.enqueue hskb,
    fun hraced => (hok.counters hraced).enqueue hskb, fun hraced hlt => ?_, hok.isolated⟩
  obtain ⟨hbound, hsorted, htaken⟩ := hok.cookies hraced hlt
  exact ⟨hbound, hsorted, htaken⟩

/-- After a race, nothing is claimed for the counters and the cookies of the radio. -/
theorem Inv.race (hi : s.Inv start) (hdata : data ∈ s.sys.wiphys) (u : Unlocked) :
    ({ sys := s.sys.put (data.race u),
       history := Function.update s.history data.idx { s.history data.idx with raced := true } } : Air).Inv start := by
  have hok := hi.radios data hdata
  refine hi.put hdata ⟨⟨rfl, rfl, rfl⟩, rfl⟩ ⟨⟨hok.psValid.ps, hok.psValid.psPollPending⟩, ?_, nofun, nofun, hok.isolated⟩
  obtain ⟨hgiven, hasked, hmost, hpending⟩ := hok.accounts
  exact ⟨hgiven, hasked, hmost, hpending⟩

end Air

namespace Air
variable {start : Int} {s t : Air} {a : AirAct}

theorem Inv.other (hi : s.Inv start) {a : HwsimAct} {sys : HwsimSys} (hs : s.sys.step a = some sys) :
    ({ s with sys } : Air).Inv start := by
  obtain ⟨hidx, horigin⟩ := HwsimSys.step_radios hs
  refine ⟨hi.sys.step hs, fun r hr => ?_, fun i hle => hi.fresh i (hidx.trans hle)⟩
  rcases horigin r hr with ⟨r', hr', net, wmediumd, rfl⟩ | ⟨n, portid, param, hwname, rfl⟩
  · have hok := hi.radios r' hr'
    exact hok.congr ⟨hok.psValid.ps, hok.psValid.psPollPending⟩ rfl rfl rfl ⟨rfl, rfl, rfl, rfl⟩ ⟨rfl, rfl⟩
  · show RadioOk _ (s.history s.sys.hwsimRadioIdx)
    rw [hi.fresh _ (Int.le_refl _)]
    exact .new s.sys n portid param hwname

theorem Inv.monXmit (hi : s.Inv start) (ps pagedRx : Bool) (skb : Mem UInt8) (len : Nat) (allocs : Int → Allocs) :
    let out := hwsimMonXmit ps pagedRx skb len (s.sys.hwsimRadios.map fun r => (r.toHwsimData, allocs r.idx))
    ({ sys := { s.sys with hwsimRadios := s.sys.hwsimRadios.map (·.monCount out) },
       history := Air.receive s.history .monitor (out.received.map fun x => (x.radio, x.bytes)) } : Air).Inv start := by
  intro out
  have hok : ∀ r ∈ s.sys.hwsimRadios, RadioOk r (s.history r.idx) :=
    fun r hr => hi.radios r (HwsimSys.mem_wiphys_of_list hr)
  refine hi.receive (fun r hr => (Mac80211HwsimData.count_ok (hok r hr) _).1) (fun r hr => ?_)
    (List.forall_mem_map.2 fun x hx => ?_)
  · rw [Air.receive, List.filter_map]
    exact (Mac80211HwsimData.count_ok (hok r hr) _).2
  · -- each frame goes to a radio in the list
    have hmem : (x.radio, x.bytes) ∈ out.received.map fun x => (x.radio, x.bytes) := List.mem_map_of_mem hx
    have hreceived : out.received.map (fun x => (x.radio, x.bytes)) = _ := received_monXmit
    rw [hreceived] at hmem
    obtain ⟨c, hc, heq⟩ := List.mem_map.1 hmem
    obtain ⟨r, hr, rfl⟩ := List.mem_map.1 (List.mem_of_mem_filter hc)
    exact ⟨r, hr, congrArg Prod.fst heq⟩

theorem receive_single (history : Int → RadioHistory) (source : FrameSource) (i : Int) (frame : List UInt8) :
    Air.receive history source [(i, frame)] = Function.update history i ((history i).receive source frame) := by
  funext j
  by_cases heq : j = i
  · subst heq
    simp [Air.receive]
  · rw [Function.update_of_ne heq]
    simp [Air.receive, Ne.symm heq]

theorem Inv.report (hi : s.Inv start) {data data' : Mac80211HwsimData} {cookie : UInt64} {skb : PendingSkb}
    (hdata : data ∈ s.sys.wiphys) (hunlink : data.unlink cookie = some (skb, data')) :
    ({ sys := s.sys.put data', history := Function.update s.history data.idx ((s.history data.idx).report skb) } : Air).Inv
      start := by
  have hok := hi.radios data hdata
  have haccounts := hok.accounts.report hunlink
  obtain ⟨found, -, heq⟩ := Option.map_eq_some_iff.1 hunlink
  cases heq
  refine hi.put hdata ⟨⟨rfl, rfl, rfl⟩, rfl⟩ ⟨⟨hok.psValid.ps, hok.psValid.psPollPending⟩, haccounts, fun hraced => ?_,
    fun hraced hlt => ?_, hok.isolated⟩
  · obtain ⟨htxFailed, htxDropped, htxPkts, htxBytes, hrxPkts, hrxBytes⟩ := hok.counters hraced
    exact ⟨htxFailed, htxDropped, htxPkts, htxBytes, hrxPkts, hrxBytes⟩
  · obtain ⟨hbound, hsorted, htaken⟩ := hok.cookies hraced hlt
    exact ⟨hbound, hsorted, htaken⟩

theorem Inv.step (hi : s.Inv start) (hs : s.step a = some t) : t.Inv start := by
  cases a with
  | other a =>
    obtain ⟨sys, hsys, rfl⟩ := Option.map_eq_some_iff.1 hs
    exact hi.other hsys
  | callback idx c =>
    obtain ⟨data, hdata, rfl⟩ := Option.map_eq_some_iff.1 hs
    obtain ⟨hdata, -⟩ := HwsimSys.radioAt_eq_some hdata
    obtain ⟨hsame, hok⟩ := Mac80211HwsimData.callback_ok (hi.radios data hdata) c
    exact hi.putSame hdata hsame hok
  | tx idx skb env =>
    obtain ⟨data, hdata, hs⟩ := Option.bind_eq_some_iff.1 hs
    exact hi.tx (HwsimSys.radioAt_eq_some hdata).1 hs
  | txFrame idx skb chan env =>
    obtain ⟨data, hdata, hs⟩ := Option.bind_eq_some_iff.1 hs
    exact hi.txFrame (HwsimSys.radioAt_eq_some hdata).1 hs
  | beacon idx skb chan env =>
    obtain ⟨data, hdata, hs⟩ := Option.bind_eq_some_iff.1 hs
    exact hi.beaconTx (HwsimSys.radioAt_eq_some hdata).1 hs
  | enqueue idx k =>
    obtain ⟨data, hdata, hs⟩ := Option.bind_eq_some_iff.1 hs
    obtain ⟨hmem, rfl⟩ := HwsimSys.radioAt_eq_some hdata
    obtain ⟨skb, hskb, rfl⟩ := Option.map_eq_some_iff.1 hs
    exact hi.enqueue hmem (List.mem_of_getElem? hskb)
  | txInfo net portid attrs =>
    obtain ⟨-, hs⟩ := Option.ite_none_right_eq_some.1 hs
    obtain ⟨n, -, rfl⟩ := Option.map_eq_some_iff.1 hs
    rcases HwsimSys.txInfo_cases s.sys n portid attrs with
      hnone | ⟨src, cookie, data, skb, data', out, -, -, hdata, -, -, hunlink, hidx, hskb, hsome⟩
    · rw [hnone]
      exact hi
    · rw [hsome]
      have hdata := HwsimSys.mem_wiphys_of_list (HwsimSys.mem_of_addr hdata).1
      have hradio : out.radio = data.idx := by
        obtain ⟨found, -, heq⟩ := Option.map_eq_some_iff.1 hunlink
        cases heq
        exact hidx
      simp only [hradio, hskb]
      exact hi.report hdata hunlink
  | clonedFrame net portid attrs alloc =>
    obtain ⟨-, hs⟩ := Option.ite_none_right_eq_some.1 hs
    obtain ⟨n, -, hs⟩ := Option.bind_eq_some_iff.1 hs
    obtain ⟨out, hout, rfl⟩ := Option.map_eq_some_iff.1 hs
    rcases HwsimSys.clonedFrame_cases hout with
      rfl | ⟨dst, frame, data, rx, -, -, -, hdata, hgroup, -, -, -, hidx, hframe, rfl⟩
    · exact hi
    · have hdata := HwsimSys.mem_wiphys_of_list (HwsimSys.mem_of_addr hdata).1
      show ({ sys := _, history := Air.receive s.history (.daemon n.netgroup) [(rx.radio, rx.data)] } : Air).Inv start
      rw [hidx, hframe, receive_single]
      exact hi.put hdata ⟨⟨rfl, rfl, rfl⟩, rfl⟩ ((hi.radios data hdata).receive (.inr (.inr (congrArg _ hgroup))) frame)
  | monXmit ps pagedRx skb len allocs =>
    cases hs
    exact hi.monXmit ps pagedRx skb len allocs
  | race idx u =>
    obtain ⟨data, hdata, rfl⟩ := Option.map_eq_some_iff.1 hs
    obtain ⟨hmem, rfl⟩ := HwsimSys.radioAt_eq_some hdata
    exact hi.race hmem u

theorem Inv.path {acts : List AirAct} (hp : Path Air.step AnyStep s acts t) (hi : s.Inv start) : t.Inv start :=
  hp.invariant (Air.Inv start) (fun _ _ _ hi _ hs => hi.step hs) hi

end Air

/-! ### Runs -/

def slowRate : TxRate := ⟨0, 1, false, false, false, false, false, false⟩

/-- A frame of sixteen bytes to the address `dst` -/
def frameTo (dst : MacAddr) : TxSkb :=
  { data := [8, 0, 0, 0] ++ dst.toList ++ [2, 0, 0, 0, 9, 0], reqTxStatus := true, noAck := false, hwQueue := 0,
    vif := none, rates := Vector.replicate 4 slowRate }

def allGoesWell : TxEnv := { msg := .put, room := true, tsfRaw := 7, copied := fun _ => true, bitrate := 10 }

/-- Two radios on a channel -/
def twoTuned : List AirAct :=
  [.other (.bind 0 100), .other (.command 0 100 (.newRadio 1 ⟨none, false, false, false, none⟩ true "a" .ok)),
    .other (.command 0 100 (.newRadio 1 ⟨none, false, false, false, none⟩ true "b" .ok)),
    .other (.append 0), .other (.append 1), .callback 0 .start, .callback 0 (.config (some 2437) false), .callback 1 .start,
    .callback 1 (.config (some 2437) false)]

/-- Three frames for a daemon: the first one is reported, the second one waits, and the third one is on the way. -/
def threeFrames : List AirAct :=
  [.other (.command 0 100 .register), .txFrame 0 (frameTo (.replicate _ 1)) 2437 allGoesWell, .enqueue 0 0,
    .txFrame 0 (frameTo (.replicate _ 2)) 2437 allGoesWell,
    .txInfo 0 100 ⟨some #v[0x42, 0, 0, 0, 0, 0], some 4, some 1, some 200, some (.replicate _ ⟨0, 1⟩)⟩, .enqueue 0 0,
    .txFrame 0 (frameTo (.replicate _ 3)) 2437 allGoesWell]

def perfectAir : Air := (run Air.step AnyStep (.load 0) twoTuned).get (by decide +kernel)

def waitingAir : Air := (run Air.step AnyStep (.load 0) (twoTuned ++ threeFrames)).get (by decide +kernel)

/-- The radio that sends the three frames, and the frame that waits -/
def sender : Mac80211HwsimData := waitingAir.sys.hwsimRadios.head (by decide +kernel)
def waiting : PendingSkb := sender.pending.head (by decide +kernel)

/-- Whatever the radios and the daemons do, a frame that a radio got from another radio or from a daemon comes from its
own netgroup. -/
theorem air_isolated (start : Int) (acts : List AirAct) (s : Air) (h : Path Air.step AnyStep (.load start) acts s)
    (r : Mac80211HwsimData) (hr : r ∈ s.sys.wiphys) (x : FrameSource × List UInt8)
    (hx : x ∈ (s.history r.idx).received) : x.1 = .monitor ∨ x.1 = .radio r.netgroup ∨ x.1 = .daemon r.netgroup :=
  (((Air.Inv.load start).path h).radios r hr).isolated x hx

/-- One frame on the perfect medium, of a radio that has just been taken out of the list, and one that is written to the
monitor interface -/
theorem air_isolated_two : ∃ s,
    Path Air.step AnyStep (.load 0) (twoTuned ++ [.other (.command 0 100 (.delRadio ⟨some 0, none⟩ true)),
      .txFrame 0 (frameTo (.replicate _ 1)) 2437 allGoesWell,
      .monXmit false false (Mem.fill 0) 40 fun _ => ⟨false, false, true, Mem.fill 0⟩]) s ∧
    (s.history 1).received.map Prod.fst = [.radio 0, .monitor] ∧
    ∀ r ∈ s.sys.wiphys, ∀ x ∈ (s.history r.idx).received,
      x.1 = .monitor ∨ x.1 = .radio r.netgroup ∨ x.1 = .daemon r.netgroup := by
  refine ⟨_, .of_run (by decide +kernel), by decide +kernel, ?_⟩
  exact air_isolated 0 _ _ (.of_run (by decide +kernel))

/-- No socket but the daemon that the namespace has at the time gets an answer or a frame through. -/
theorem air_daemon_only (start : Int) (acts : List AirAct) (s : Air) (h : Path Air.step AnyStep (.load start) acts s)
    (n : HwsimNet) (hn : n ∈ s.sys.nets) (portid : UInt32) (hopen : (n.net, portid) ∈ s.sys.sockets)
    (hother : portid ≠ n.wmediumd) :
    (∀ attrs, s.sys.hwsimTxInfoFrameReceivedNl n portid attrs = (s.sys, -22, none)) ∧
      ∀ attrs alloc, s.sys.hwsimClonedFrameReceivedNl n portid attrs alloc = some (s.sys, -22, none) := by
  have hi := (Air.Inv.load start).path h
  -- the port of a radio is that of the daemon of its netgroup
  have hport : ∀ data ∈ s.sys.hwsimRadios, n.netgroup = data.netgroup → portid ≠ data.wmediumd := by
    rintro data hdata hgroup rfl
    obtain ⟨-, m, hm, hmg, hmw⟩ := hi.sys.registered data hdata (hi.sys.ports _ hopen)
    obtain rfl := hi.sys.netgroup_inj hm hn (hmg.trans hgroup.symm)
    exact hother hmw.symm
  refine ⟨fun attrs => ?_, HwsimSys.clonedFrame_refused hport⟩
  rcases HwsimSys.txInfo_cases s.sys n portid attrs with
    hnone | ⟨src, cookie, data, skb, data', out, -, -, hdata, hgroup, hwmediumd, -⟩
  · exact hnone
  · exact absurd hwmediumd (hport data (HwsimSys.mem_of_addr hdata).1 hgroup)

/-- Another socket in the namespace of the daemon -/
theorem air_daemon_only_other : ∃ s, Path Air.step AnyStep (.load 0) (twoTuned ++ threeFrames ++ [.other (.bind 0 101)]) s ∧
    (∀ attrs, s.sys.hwsimTxInfoFrameReceivedNl ⟨0, 0, 100⟩ 101 attrs = (s.sys, -22, none)) ∧
      ∀ attrs alloc, s.sys.hwsimClonedFrameReceivedNl ⟨0, 0, 100⟩ 101 attrs alloc = some (s.sys, -22, none) := by
  refine ⟨_, .of_run (by decide +kernel), ?_⟩
  exact air_daemon_only 0 _ _ (.of_run (by decide +kernel)) ⟨0, 0, 100⟩ (by decide +kernel) 101 (by decide +kernel)
    (by decide)

/-- On the perfect medium, a frame gets to the radios in the list that hear it and for which there is memory, to each of
them once, and nothing else happens to any radio. -/
theorem air_perfect_medium (start : Int) (acts : List AirAct) (s t : Air)
    (h : Path Air.step AnyStep (.load start) acts s) (data : Mac80211HwsimData) (hdata : data ∈ s.sys.wiphys)
    (hdaemon : data.wmediumd = 0) (skb : TxSkb) (chan : Nat) (env : TxEnv)
    (hs : s.step (.txFrame data.idx skb chan env) = some t) :
    let frame := withPm data.ps skb.data
    let radios := s.sys.hwsimRadios.map fun r =>
      if data.Hears chan r ∧ env.copied r.idx = true then r.count frame.length else r
    t.sys = { s.sys with hwsimRadios := radios } ∧
      (∀ r ∈ s.sys.hwsimRadios, t.history r.idx =
        if data.Hears chan r ∧ env.copied r.idx = true then (s.history r.idx).receive (.radio data.netgroup) frame
        else s.history r.idx) ∧
      ∀ i, (∀ r ∈ s.sys.hwsimRadios, r.idx ≠ i) → t.history i = s.history i := by
  intro frame radios
  have hi := (Air.Inv.load start).path h
  obtain ⟨data', hdata', htx⟩ := Option.bind_eq_some_iff.1 hs
  obtain ⟨hmem, hidx⟩ := HwsimSys.radioAt_eq_some hdata'
  obtain rfl := hi.sys.idx_inj hdata hmem hidx.symm
  have hsend : some (s.sendNoNl data skb chan env) = some t := (if_neg (not_not.2 hdaemon)).symm.trans htx
  rw [Air.sendNoNl_eq hi] at hsend
  cases hsend
  refine ⟨?_, fun r hr => ?_, fun i hne => ?_⟩
  · simp only [radios, frame, gets, Bool.and_eq_true, decide_eq_true_eq]
  · show Air.receive s.history _ _ r.idx = _
    rw [Air.receive, Air.filter_copies hi.sys.nodup_list hr]
    simp only [gets, Bool.and_eq_true, decide_eq_true_eq]
    split <;> rfl
  · exact Air.receive_of_ne (List.forall_mem_map.2 fun r hr => hne r (List.mem_of_mem_filter hr))

theorem air_perfect_medium_one : ∃ t, perfectAir.step (.txFrame 0 (frameTo (.replicate _ 1)) 2437 allGoesWell) = some t ∧
    ∀ r ∈ perfectAir.sys.hwsimRadios, t.history r.idx =
      if (perfectAir.sys.hwsimRadios.head (by decide +kernel)).Hears 2437 r ∧ allGoesWell.copied r.idx = true then
        (perfectAir.history r.idx).receive (.radio 0) (frameTo (.replicate _ 1)).data
      else perfectAir.history r.idx := by
  refine ⟨_, rfl, ?_⟩
  exact (air_perfect_medium 0 _ perfectAir _ (.of_run _) _ (HwsimSys.mem_wiphys_of_list (List.head_mem (by decide +kernel)))
    (by decide +kernel) _ 2437 _ rfl).2.1

end Hwsim
end WlanxVms
