import WlanxVms.Hwsim.AirInv

/-!
# A radio in power save (`hwsim_fops_ps_write`, `hwsim_ps_rx_ok`)

The file `ps` has a mode in which the radio sleeps, and one that asks for the frames that wait for it: writing
`PS_MANUAL_POLL` sends a PS-Poll, but sets neither the mode nor `ps_poll_pending`, on which `hwsim_ps_rx_ok` lets a frame
through. So a radio that sleeps stays deaf to the others, however often it polls. Frames from a daemon and frames that
are written to the monitor interface still reach it: there nobody looks at the mode.
-/

namespace WlanxVms
namespace Hwsim

/-- Nobody writes another mode. -/
def LeavesAsleep (i : Int) (_ : Air) : AirAct → Prop
  | .callback idx (.psWrite val) => idx = i → val ≠ 0 ∧ val ≠ 2
  | _ => True

def FrameSource.isRadio : FrameSource → Bool
  | .radio _ => true
  | _ => false

/-- The frames that the radio got on the perfect medium -/
def RadioHistory.overheard (h : RadioHistory) : List (FrameSource × List UInt8) := h.received.filter fun x => x.1.isRadio

theorem RadioHistory.overheard_call (h : RadioHistory) (frame : List UInt8) (out : TxNl) :
    (h.call frame out).overheard = h.overheard :=
  congrArg (List.filter _) (RadioHistory.received_call ..)

theorem RadioHistory.overheard_receive {source : FrameSource} (hsource : source.isRadio = false) (h : RadioHistory)
    (frame : List UInt8) : (h.receive source frame).overheard = h.overheard := by
  rw [overheard, receive, List.filter_append, List.filter_singleton]
  simp only [hsource]
  exact List.append_nil _

/-- The radio goes on sleeping, whatever mac80211 and debugfs ask for but another mode. -/
theorem Mac80211HwsimData.callback_ps {data : Mac80211HwsimData} {c : Callback} (hps : data.ps = .enabled)
    (hc : ∀ val, c = .psWrite val → val ≠ 0 ∧ val ≠ 2) : (data.callback c).ps = .enabled := by
  cases c with
  | psWrite val =>
    obtain ⟨hzero, htwo⟩ := hc val rfl
    simp only [callback, hwsimFopsPsWrite]
    split
    · exact hps
    next hval =>
    split
    · split <;> exact hps
    · have hone : val = 1 := by
        simpa [hzero, htwo, *] using hval
      rw [hone]
      rfl
  | swScan macAddr =>
    simp only [callback]
    split <;> exact hps
  | setTsf tsfRaw tsf =>
    simp only [callback, mac80211HwsimSetTsf]
    split <;> exact hps
  | _ => exact hps

theorem Mac80211HwsimData.foldl_count (rx : List RxFrame) (r : Mac80211HwsimData) :
    (rx.foldl (fun r x => r.count x.bytes.length) r).idx = r.idx ∧
      (rx.foldl (fun r x => r.count x.bytes.length) r).ps = r.ps := by
  induction rx generalizing r with
  | nil => exact ⟨rfl, rfl⟩
  | cons x rx ih => exact ih (r.count x.bytes.length)

namespace Air

theorem overheard_receive {source : FrameSource} (hsource : source.isRadio = false) (history : Int → RadioHistory)
    (rx : List (Int × List UInt8)) (i : Int) : (receive history source rx i).overheard = (history i).overheard := by
  unfold receive
  generalize history i = h
  induction rx.filter (fun x => x.1 = i) generalizing h with
  | nil => rfl
  | cons x rx ih => exact (ih _).trans (RadioHistory.overheard_receive hsource h x.2)

/-- The radio `i` sleeps, and has got the frames `overheard` from the others. -/
structure Deaf (i : Int) (overheard : List (FrameSource × List UInt8)) (s : Air) : Prop where
  ps : ∀ r ∈ s.sys.wiphys, r.idx = i → r.ps = .enabled
  old : i < s.sys.hwsimRadioIdx
  overheard : (s.history i).overheard = overheard

variable {start i : Int} {overheard : List (FrameSource × List UInt8)} {s t : Air} {data data' : Mac80211HwsimData}
  {h : RadioHistory} {skb : TxSkb} {chan : Nat} {env : TxEnv} {a : AirAct}

theorem Deaf.put (hd : s.Deaf i overheard) (hidx : data'.idx = data.idx) (hps : data.idx = i → data'.ps = .enabled)
    (hheard : h.overheard = (s.history data.idx).overheard) :
    ({ sys := s.sys.put data', history := Function.update s.history data.idx h } : Air).Deaf i overheard := by
  refine ⟨fun r hr heq => ?_, hd.old, ?_⟩
  · rcases HwsimSys.mem_put hr with rfl | ⟨hr, -⟩
    · exact hps (hidx.symm.trans heq)
    · exact hd.ps r hr heq
  · show (Function.update s.history data.idx h i).overheard = overheard
    by_cases heq : i = data.idx
    · subst heq
      rw [Function.update_self, hheard]
      exact hd.overheard
    · rw [Function.update_of_ne heq]
      exact hd.overheard

theorem Deaf.putSame (hd : s.Deaf i overheard) (hidx : data'.idx = data.idx) (hps : data.idx = i → data'.ps = .enabled) :
    ({ s with sys := s.sys.put data' } : Air).Deaf i overheard := by
  have hput := hd.put hidx hps (h := s.history data.idx) rfl
  rwa [Function.update_eq_self] at hput

theorem Deaf.receive (hd : s.Deaf i overheard) {f : Mac80211HwsimData → Mac80211HwsimData} {source : FrameSource}
    {rx : List (Int × List UInt8)} (hidx : ∀ r, (f r).idx = r.idx) (hps : ∀ r, (f r).ps = r.ps)
    (hheard : (Air.receive s.history source rx i).overheard = (s.history i).overheard) :
    ({ sys := { s.sys with hwsimRadios := s.sys.hwsimRadios.map f },
       history := Air.receive s.history source rx } : Air).Deaf i overheard := by
  refine ⟨fun r hr heq => ?_, hd.old, hheard.trans hd.overheard⟩
  rcases HwsimSys.mem_wiphys.1 hr with hr | hr
  · obtain ⟨r', hr', rfl⟩ := List.mem_map.1 hr
    rw [hps]
    exact hd.ps r' (HwsimSys.mem_wiphys_of_list hr') ((hidx r').symm.trans heq)
  · exact hd.ps r (HwsimSys.mem_wiphys.2 (.inr hr)) heq

/-- The radio is none of those that get a copy. -/
theorem Deaf.sendNoNl (hd : s.Deaf i overheard) (hi : s.Inv start) : (s.sendNoNl data skb chan env).Deaf i overheard := by
  rw [sendNoNl_eq hi]
  refine hd.receive (fun r => ?_) (fun r => ?_) (congrArg _ (receive_of_ne ?_))
  · split <;> rfl
  · split <;> rfl
  · refine List.forall_mem_map.2 fun r hr heq => ?_
    obtain ⟨hr, hgets⟩ := List.mem_filter.1 hr
    have hhears : data.Hears chan r := of_decide_eq_true (Bool.and_eq_true_iff.1 hgets).1
    exact hhears.awake.ps (hd.ps r (HwsimSys.mem_wiphys_of_list hr) heq)

theorem Deaf.sendNl (hd : s.Deaf i overheard) (hdata : data ∈ s.sys.wiphys) (hs : s.sendNl data skb env = some t) :
    t.Deaf i overheard := by
  obtain ⟨out, hout, rfl⟩ := Option.map_eq_some_iff.1 hs
  have hsame : out.data.idx = data.idx ∧ out.data.ps = data.ps := by
    obtain ⟨pending, -, -, ⟨-, cookie, -, hdata⟩ | ⟨m, -, -, -, -, -, hdata⟩⟩ := txFrameNl_cases hout
    · rw [hdata]; exact ⟨rfl, rfl⟩
    · rw [hdata]; exact ⟨rfl, rfl⟩
  exact hd.put hsame.1 (fun heq => hsame.2.trans (hd.ps data hdata heq)) (RadioHistory.overheard_call ..)

theorem Deaf.txFrame (hd : s.Deaf i overheard) (hi : s.Inv start) (hdata : data ∈ s.sys.wiphys)
    (hs : s.mac80211HwsimTxFrame data skb chan env = some t) : t.Deaf i overheard := by
  unfold mac80211HwsimTxFrame at hs
  split at hs
  · exact hd.sendNl hdata hs
  · cases hs
    exact hd.sendNoNl hi

theorem Deaf.tx (hd : s.Deaf i overheard) (hi : s.Inv start) (hdata : data ∈ s.sys.wiphys)
    (hs : s.mac80211HwsimTx data skb env = some t) : t.Deaf i overheard := by
  rcases tx_cases hs with rfl | ⟨skb', hs | ⟨chan, rfl⟩⟩
  · exact hd
  · exact hd.sendNl hdata hs
  · refine Deaf.sendNoNl ?_ (hi.counted hdata skb'.data)
    exact hd.put rfl (hd.ps data hdata) rfl

/-- A new radio has another number. -/
theorem Deaf.other (hd : s.Deaf i overheard) {a : HwsimAct} {sys : HwsimSys} (hs : s.sys.step a = some sys) :
    ({ s with sys } : Air).Deaf i overheard := by
  obtain ⟨hidx, horigin⟩ := HwsimSys.step_radios hs
  have hold := hd.old
  refine ⟨fun r hr heq => ?_, by show i < sys.hwsimRadioIdx; omega, hd.overheard⟩
  rcases horigin r hr with ⟨r', hr', net, wmediumd, rfl⟩ | ⟨n, portid, param, hwname, rfl⟩
  · exact hd.ps r' hr' heq
  · have heq : s.sys.hwsimRadioIdx = i := heq
    omega

theorem Deaf.step (hd : s.Deaf i overheard) (hi : s.Inv start) (hG : LeavesAsleep i s a) (hs : s.step a = some t) :
    t.Deaf i overheard := by
  cases a with
  | other a =>
    obtain ⟨sys, hsys, rfl⟩ := Option.map_eq_some_iff.1 hs
    exact hd.other hsys
  | callback idx c =>
    obtain ⟨data, hdata, rfl⟩ := Option.map_eq_some_iff.1 hs
    obtain ⟨hmem, rfl⟩ := HwsimSys.radioAt_eq_some hdata
    obtain ⟨hsame, -⟩ := Mac80211HwsimData.callback_ok (hi.radios data hmem) c
    refine hd.putSame hsame.idx fun heq => Mac80211HwsimData.callback_ps (hd.ps data hmem heq) ?_
    rintro val rfl
    exact hG heq
  | tx idx skb env =>
    obtain ⟨data, hdata, hs⟩ := Option.bind_eq_some_iff.1 hs
    exact hd.tx hi (HwsimSys.radioAt_eq_some hdata).1 hs
  | txFrame idx skb chan env =>
    obtain ⟨data, hdata, hs⟩ := Option.bind_eq_some_iff.1 hs
    exact hd.txFrame hi (HwsimSys.radioAt_eq_some hdata).1 hs
  | beacon idx skb chan env =>
    obtain ⟨data, hdata, hs⟩ := Option.bind_eq_some_iff.1 hs
    obtain ⟨hdata, -⟩ := HwsimSys.radioAt_eq_some hdata
    refine Deaf.txFrame ?_ (hi.beaconTs hdata env.tsfRaw) (mem_put_self hdata rfl) hs
    exact hd.putSame rfl (hd.ps data hdata)
  | enqueue idx k =>
    obtain ⟨data, hdata, hs⟩ := Option.bind_eq_some_iff.1 hs
    obtain ⟨hmem, rfl⟩ := HwsimSys.radioAt_eq_some hdata
    obtain ⟨skb, -, rfl⟩ := Option.map_eq_some_iff.1 hs
    exact hd.put rfl (hd.ps data hmem) rfl
  | txInfo net portid attrs =>
    obtain ⟨-, hs⟩ := Option.ite_none_right_eq_some.1 hs
    obtain ⟨n, -, rfl⟩ := Option.map_eq_some_iff.1 hs
    rcases HwsimSys.txInfo_cases s.sys n portid attrs with
      hnone | ⟨src, cookie, data, skb, data', out, -, -, hdata, -, -, hunlink, hidx, hskb, hsome⟩
    · rw [hnone]
      exact hd
    · rw [hsome]
      have hdata := HwsimSys.mem_wiphys_of_list (HwsimSys.mem_of_addr hdata).1
      obtain ⟨found, -, heq⟩ := Option.map_eq_some_iff.1 hunlink
      cases heq
      simp only [hidx, hskb]
      exact hd.put rfl (hd.ps data hdata) rfl
  | clonedFrame net portid attrs alloc =>
    obtain ⟨-, hs⟩ := Option.ite_none_right_eq_some.1 hs
    obtain ⟨n, -, hs⟩ := Option.bind_eq_some_iff.1 hs
    obtain ⟨out, hout, rfl⟩ := Option.map_eq_some_iff.1 hs
    rcases HwsimSys.clonedFrame_cases hout with
      rfl | ⟨dst, frame, data, rx, -, -, -, hdata, -, -, -, -, hidx, -, rfl⟩
    · exact hd
    · have hdata := HwsimSys.mem_wiphys_of_list (HwsimSys.mem_of_addr hdata).1
      have hidx' : (data.count frame.length).idx = data.idx := rfl
      have hput := hd.putSame hidx' (hd.ps data hdata)
      exact ⟨hput.ps, hput.old, (overheard_receive rfl ..).trans hput.overheard⟩
  | monXmit ps pagedRx skb len allocs =>
    cases hs
    exact hd.receive (fun r => (Mac80211HwsimData.foldl_count _ r).1) (fun r => (Mac80211HwsimData.foldl_count _ r).2)
      (overheard_receive rfl ..)
  | race idx u =>
    obtain ⟨data, hdata, rfl⟩ := Option.map_eq_some_iff.1 hs
    obtain ⟨hmem, rfl⟩ := HwsimSys.radioAt_eq_some hdata
    exact hd.put rfl (hd.ps data hmem) rfl

end Air

/-- A radio that sleeps gets no frame on the perfect medium until someone writes another mode, and polling does not
help. -/
theorem air_ps_deaf (start : Int) (acts more : List AirAct) (s t : Air) (h : Path Air.step AnyStep (.load start) acts s)
    (r : Mac80211HwsimData) (hr : r ∈ s.sys.wiphys) (hps : r.ps = .enabled)
    (ht : Path Air.step (LeavesAsleep r.idx) s more t) : (t.history r.idx).overheard = (s.history r.idx).overheard := by
  have hi := (Air.Inv.load start).path h
  have hdeaf : s.Deaf r.idx (s.history r.idx).overheard := by
    refine ⟨fun r' hr' heq => ?_, hi.sys.bound r hr, rfl⟩
    rw [hi.sys.idx_inj hr' hr heq]
    exact hps
  obtain ⟨hend, -⟩ := ht.invariant (fun u => u.Deaf r.idx (s.history r.idx).overheard ∧ u.Inv start)
    (fun u a v ⟨hu, hui⟩ hG hs => ⟨hu.step hui hG hs, hui.step hs⟩) ⟨hdeaf, hi⟩
  exact hend.overheard

/-- The second radio goes to sleep. -/
def sleepingAir : Air := (run Air.step AnyStep (.load 0) (twoTuned ++ [.callback 1 (.psWrite 1)])).get (by decide +kernel)

/-- It polls before and after a frame, and then one is written to the monitor interface. -/
def polling : List AirAct :=
  [.callback 1 (.psWrite 3), .txFrame 0 (frameTo (.replicate _ 1)) 2437 allGoesWell, .callback 1 (.psWrite 3),
    .monXmit false false (Mem.fill 0) 40 fun _ => ⟨false, false, true, Mem.fill 0⟩]

theorem air_ps_deaf_polls : ∃ t, Path Air.step (LeavesAsleep 1) sleepingAir polling t ∧
    (t.history 1).received.map Prod.fst = [.monitor] ∧ (t.history 1).overheard = (sleepingAir.history 1).overheard := by
  have hpath : Path Air.step (LeavesAsleep 1) sleepingAir polling _ :=
    .cons (fun _ => by decide) rfl (.cons trivial rfl (.cons (fun _ => by decide) rfl (.single trivial rfl)))
  refine ⟨_, hpath, by decide +kernel, ?_⟩
  exact air_ps_deaf 0 _ polling sleepingAir _ (.of_run _)
    (sleepingAir.sys.wiphys.getLast (by decide +kernel)) (List.getLast_mem _) (by decide +kernel) hpath

end Hwsim
end WlanxVms
