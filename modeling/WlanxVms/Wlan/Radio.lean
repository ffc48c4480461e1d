import Mathlib.Data.List.Forall2
import WlanxVms.Hwsim.Monitor
import WlanxVms.Wlan

/-!
# From radio to radio

The card of a machine is a radio of the driver. Its injector captures the packets that `mac80211_hwsim_monitor_rx` makes
of the frames that the radio transmits, and the acknowledgements that the driver makes up for them; what it injects goes to
`hwsim_mon_xmit`. So it is the radios that are on
one medium: each of them gets the frames that the radios of the other machines transmitted, but the acknowledgements.
-/

namespace WlanxVms
open Injector Bcaster Broadcast

/-- A frame that a radio transmits, with the time when its packet is captured -/
structure Transmission where
  sec : UInt64
  nsec : UInt64
  monitored : Hwsim.Monitored
  frame_ne : monitored.frame ≠ []
  fits : (Hwsim.monitorRx monitored).length ≤ bufferSize

namespace Transmission

def stamped (x : Transmission) : Stamped := ⟨x.sec, x.nsec, Hwsim.monitorRx x.monitored⟩

/-- The frame is an acknowledgement, which no injector relays. -/
def isAck (x : Transmission) : Bool := x.monitored.frame.head?.any fun b => b.toNat &&& 0xfc = 0xd4

/-- Written to the monitor interface, the packet brings the frame of the transmission to every radio for which there is
memory. -/
def Reaches (x : Transmission) (y : Stamped) : Prop :=
  ∀ (m : Mem UInt8) (ps pagedRx : Bool) (radios : List (Hwsim.HwsimData × Hwsim.Allocs)),
    m.read 0 y.bytes.length = y.bytes →
    (Hwsim.hwsimMonXmit ps pagedRx m y.bytes.length radios).received =
      (Hwsim.copies pagedRx m y.bytes.length radios).map fun r =>
        { radio := r.1.idx, chan := { band := .ghz2, centerFreq := x.monitored.freq.toNat },
          bytes := Hwsim.markedPm ps x.monitored.frame }

theorem reaches_stamped (x : Transmission) : x.Reaches x.stamped :=
  fun _ ps pagedRx radios h => Hwsim.received_monitorRx x.frame_ne h ps pagedRx radios

theorem forall₂_reaches (xs : List Transmission) : List.Forall₂ Reaches xs (xs.map stamped) :=
  List.forall₂_map_right_iff.2 (List.forall₂_same.2 fun x _ => x.reaches_stamped)

theorem isAck_packet (x : Transmission) {m : Mem UInt8}
    (h : m.read 0 (Hwsim.monitorRx x.monitored).length = Hwsim.monitorRx x.monitored) (size : Int) :
    (WlanxVms.isAck size).value m = x.isAck := by
  rw [Bool.eq_iff_iff, Hwsim.isAck_monitorRx x.frame_ne h]
  obtain ⟨b, rest, hb⟩ := List.exists_cons_of_ne_nil x.frame_ne
  rw [isAck, hb, List.head?_cons, Option.any_some, decide_eq_true_iff]
  constructor
  · rintro ⟨b', rest', hcons, hack⟩
    rwa [(List.cons.inj hcons).1]
  · exact fun hack => ⟨b, rest, rfl, hack⟩

end Transmission

/-- A packet that the driver gives to the monitor interface: the one of a transmission, or an acknowledgement of
`mac80211_hwsim_monitor_ack` -/
inductive MonitorPacket where
  | rx (x : Transmission)
  | ack (freq : UInt16) (addr : Hwsim.MacAddr)

/-- The transmission that an injector relays -/
def MonitorPacket.relayed : MonitorPacket → Option Transmission
  | .rx x => if x.isAck then none else some x
  | .ack .. => none

/-- The frames that a radio transmits, without the acknowledgements -/
def relayed (T : List MonitorPacket) : List Transmission := T.filterMap MonitorPacket.relayed

/-! ### Capturing -/

namespace Injector.RelaySys
variable {T : List MonitorPacket} {s t : RelaySys}

/-- The packet, which is captured in the time of its transmission -/
def IsPacket (now : Option Timespec) (p : Packet) : Option MonitorPacket → Prop
  | some (.rx x) => captureTime now = (x.sec, x.nsec) ∧ p.data.read 0 p.caplen = Hwsim.monitorRx x.monitored
  | some (.ack freq addr) => p.data.read 0 p.caplen = Hwsim.monitorAck freq addr
  | none => False

instance (now : Option Timespec) (p : Packet) : (x : Option MonitorPacket) → Decidable (IsPacket now p x)
  | some (.rx _) => inferInstanceAs (Decidable (_ ∧ _))
  | some (.ack ..) => inferInstanceAs (Decidable (_ = _))
  | none => .isFalse id

/-- The packets that `pcap_next_ex` gave -/
def numPackets (s : RelaySys) : Nat := s.captured.length + s.acks

/-- The packets that the injector gets are those of the driver, one after the other. -/
def Monitors (T : List MonitorPacket) (s : RelaySys) : RelayAct → Prop
  | .next now (some p) => IsPacket now p T[s.numPackets]?
  | _ => True

instance (T : List MonitorPacket) (s : RelaySys) : (a : RelayAct) → Decidable (Monitors T s a)
  | .next now (some p) => inferInstanceAs (Decidable (IsPacket now p _))
  | .next _ none | .getTail | .send _ | .receive _ | .getHead | .inject .. | .usedHead => .isTrue trivial

/-- The transmissions so far that the injector relays -/
def onAir (T : List MonitorPacket) (s : RelaySys) : List Transmission := relayed (T.take s.numPackets)

/-- `is_ack` finds the acknowledgements of both kinds. -/
theorem IsPacket.exists {now : Option Timespec} {p : Packet} {x : Option MonitorPacket} (h : IsPacket now p x) :
    ∃ k, x = some k ∧ ((WlanxVms.isAck p.caplen).value p.data = true → k.relayed = none) ∧
      ((WlanxVms.isAck p.caplen).value p.data = false → ∃ y, k.relayed = some y ∧ captureTime now = (y.sec, y.nsec) ∧
        p.data.read 0 p.caplen = Hwsim.monitorRx y.monitored) := by
  cases x with
  | none => exact h.elim
  | some k =>
    refine ⟨k, rfl, ?_⟩
    cases k with
    | rx y =>
      obtain ⟨htime, hread⟩ := h
      have hlen : p.caplen = (Hwsim.monitorRx y.monitored).length := by rw [← hread, Mem.length_read]
      rw [y.isAck_packet (hlen ▸ hread) p.caplen]
      refine ⟨fun hack => if_pos hack, fun hack => ⟨y, if_neg (Bool.eq_false_iff.1 hack), htime, hread⟩⟩
    | ack freq addr =>
      have hread : p.data.read 0 p.caplen = Hwsim.monitorAck freq addr := h
      have hlen : p.caplen = (Hwsim.monitorAck freq addr).length := by rw [← hread, Mem.length_read]
      rw [Hwsim.isAck_monitorAck freq addr p.caplen p.data (hlen ▸ hread)]
      exact ⟨fun _ => rfl, fun hack => absurd hack.symm Bool.false_ne_true⟩

theorem relayed_take_succ {i : Nat} {k : MonitorPacket} (hk : T[i]? = some k) :
    relayed (T.take (i + 1)) = relayed (T.take i) ++ k.relayed.toList := by
  rw [relayed, List.take_add_one, hk, List.filterMap_append]
  refine congrArg _ ?_
  cases hrel : k.relayed <;> simp [hrel]

theorem captured_next {now : Option Timespec} {packet : Option Packet}
    (h : s.captured = (s.onAir T).map Transmission.stamped) (hG : Monitors T s (.next now packet))
    (hs : s.next now packet = some t) : t.captured = (t.onAir T).map Transmission.stamped := by
  rcases next_cases hs with rfl | ⟨p, slot, rfl, hdrop, -, rfl⟩ | ⟨p, sender, rfl, hrelay, -, rfl⟩
  · exact h
  · obtain ⟨k, hk, hack, -⟩ := IsPacket.exists hG
    show s.captured = (relayed (T.take (s.numPackets + 1))).map _
    rw [relayed_take_succ hk, hack hdrop, Option.toList_none, List.append_nil]
    exact h
  · obtain ⟨k, hk, -, hpass⟩ := IsPacket.exists hG
    obtain ⟨x, hx, htime, hread⟩ := hpass hrelay
    have hnum : ∀ y, (s.captured ++ [y]).length + s.acks = s.numPackets + 1 := fun y => by
      rw [List.length_append, List.length_singleton, numPackets]
      omega
    show s.captured ++ [_] = (relayed (T.take ((s.captured ++ [_]).length + s.acks))).map _
    rw [hnum, relayed_take_succ hk, hx, Option.toList_some, List.map_append, h, htime, hread, List.take_of_length_le x.fits]
    rfl

theorem captured_vmStep {a : RelayAct} (h : s.captured = (s.onAir T).map Transmission.stamped) (hG : Monitors T s a)
    (hs : s.vmStep a = some t) : t.captured = (t.onAir T).map Transmission.stamped := by
  obtain ⟨-, hs⟩ := Option.ite_none_left_eq_some.1 hs
  cases a with
  | getTail =>
    cases hs
    exact h
  | next now packet => exact captured_next h hG hs
  | send a =>
    obtain ⟨-, hs⟩ := Option.ite_none_right_eq_some.1 hs
    obtain ⟨sender, -, rfl⟩ := Option.map_eq_some_iff.1 hs
    exact h
  | receive a =>
    obtain ⟨-, hs⟩ := Option.ite_none_right_eq_some.1 hs
    obtain ⟨receiver, -, rfl⟩ := Option.map_eq_some_iff.1 hs
    exact h
  | inject rc now =>
    obtain ⟨-, hs⟩ := Option.ite_none_left_eq_some.1 hs
    obtain ⟨slot, receiver, -, -, ⟨-, rfl⟩ | ⟨-, lagTime, aborted, -, rfl⟩⟩ := inject_cases hs
    · exact h
    · exact h
  | getHead | usedHead =>
    obtain ⟨-, hs⟩ := Option.ite_none_left_eq_some.1 hs
    obtain ⟨receiver, -, rfl⟩ := Option.map_eq_some_iff.1 hs
    exact h

end Injector.RelaySys

namespace Wlan
variable {T : Int → List MonitorPacket} {bus : Bus Int Stamped} {bacts : List (BusAct Int Stamped)} {s t : Wlan}

/-- The driver gives `T` to the monitor interfaces, the connections carry the bytes, and the bcaster meets none of its
known defects. -/
def Airs (T : Int → List MonitorPacket) (s : Wlan) : WlanAct → Prop
  | .hub a => Metered.Orderly (packets fun fd => (relayed (T fd)).map Transmission.stamped) s.hub a
  | .vm fd a => RelaySys.Carries (s.vm fd) a ∧ RelaySys.Monitors (T fd) (s.vm fd) a

instance (T : Int → List MonitorPacket) (s : Wlan) : (a : WlanAct) → Decidable (Airs T s a)
  | .hub a => inferInstanceAs (Decidable (Metered.Orderly _ s.hub a))
  | .vm _ _ => inferInstanceAs (Decidable (_ ∧ _))

theorem Airs.sound {a : WlanAct} (hG : Airs T s a)
    (h : ∀ fd, (s.vm fd).captured = ((s.vm fd).onAir (T fd)).map Transmission.stamped) (hs : s.step a = some t) :
    Sound (fun fd => (relayed (T fd)).map Transmission.stamped) s a ∧
      ∀ fd, (t.vm fd).captured = ((t.vm fd).onAir (T fd)).map Transmission.stamped := by
  cases a with
  | hub a =>
    obtain ⟨-, hs⟩ := Option.ite_none_right_eq_some.1 hs
    obtain ⟨hub, -, rfl⟩ := Option.map_eq_some_iff.1 hs
    exact ⟨hG, fun fd => h fd⟩
  | vm fd a =>
    obtain ⟨u, hu, rfl⟩ := Option.map_eq_some_iff.1 hs
    have hcaptured := RelaySys.captured_vmStep (h fd) hG.2 hu
    refine ⟨⟨hG.1, fun u' hu' => ?_⟩, fun fd' => ?_⟩
    · cases hu.symm.trans hu'
      rw [hcaptured]
      exact ((List.take_prefix ..).filterMap _).map _
    · show (Function.update s.vm fd u fd').captured = ((Function.update s.vm fd u fd').onAir (T fd')).map _
      by_cases he : fd' = fd
      · rw [he, Function.update_self]
        exact hcaptured
      · rw [Function.update_of_ne he]
        exact h fd'

/-- The radios of the machines are on one medium. What was published there for a machine its radio transmitted, in this
order. What the machine injects brings its radios the frames that the others transmitted since it was accepted, in the
order of the medium, each once. When nothing is on its way any more, all transmissions that were captured are on the
medium, and all that are on the medium were received. -/
structure OneAir (T : Int → List MonitorPacket) (air : Bus Int Transmission) (s : Wlan) : Prop where
  members : air.members.map Prod.fst = s.hub.sys.lp.table
  published : ∀ fd, air.published fd <+: (s.vm fd).onAir (T fd)
  received : ∀ v ∈ air.members, ∃ xs, xs <+: air.heard v.1 v.2 ∧
    List.Forall₂ Transmission.Reaches xs ((s.vm v.1).injected.map Injection.frame)
  settled : s.Settled → ∀ v ∈ air.members, air.published v.1 = (s.vm v.1).onAir (T v.1) ∧
    List.Forall₂ Transmission.Reaches (air.heard v.1 v.2) ((s.vm v.1).injected.map Injection.frame)

theorem OneMedium.oneAir (h : s.OneMedium bus) (hbus : Path Bus.step AnyStep .init bacts bus)
    (hcaptured : ∀ fd, (s.vm fd).captured = ((s.vm fd).onAir (T fd)).map Transmission.stamped) :
    ∃ airActs air, Path Bus.step AnyStep .init airActs air ∧ s.OneAir T air := by
  have hpub : ∀ fd, bus.published fd =
      (((s.vm fd).onAir (T fd)).take (bus.published fd).length).map Transmission.stamped := fun fd => by
    rw [List.map_take, ← hcaptured]
    exact List.prefix_iff_eq_take.1 (h.published fd)
  obtain ⟨airActs, air, hair, hmap, htaken⟩ := Bus.exists_map_eq Transmission.stamped hbus hpub
  have hheard : ∀ fd k, bus.heard fd k = (air.heard fd k).map Transmission.stamped := fun fd k => by
    rw [← hmap, Bus.heard_map]
  have hmembers : air.members = bus.members := by
    rw [← hmap]
    rfl
  refine ⟨airActs, air, hair, hmembers ▸ h.members, fun fd => htaken fd ▸ List.take_prefix .., fun v hv => ?_,
    fun hset v hv => ?_⟩
  · have hinjected := h.injected v (hmembers ▸ hv)
    rw [hheard] at hinjected
    obtain ⟨xs, hxs, hmapped⟩ := List.prefix_map_iff.1 hinjected
    exact ⟨xs, hxs, hmapped ▸ Transmission.forall₂_reaches xs⟩
  · obtain ⟨hall, hinjected⟩ := h.settled hset v (hmembers ▸ hv)
    constructor
    · rw [htaken, hall, hcaptured, List.length_map, List.take_length]
    · rw [hinjected, hheard]
      exact Transmission.forall₂_reaches _

end Wlan

/-- However the threads of the machines and of the bcaster interleave, the radios, whose packets on the monitor interfaces
are `T`, are on one medium, in the runs in which the connections carry the bytes and the known defects of the bcaster are
not met. -/
theorem wlan_radioToRadio (n m itemSize : Nat) (block block' : Int → Option (Mem QItem)) (q q' : Int → AqType QItem)
    (hn : 1 ≤ n ∧ n ≤ 65535) (hm : 1 ≤ m ∧ m ≤ 65535) (hq : ∀ fd, aqNew (block fd) itemSize n = some (q fd))
    (hq' : ∀ fd, aqNew (block' fd) itemSize m = some (q' fd)) (sd : Int → SendingData) (lp : Int → Lisa)
    (hlp : ∀ fd, (lp fd).clsvr = .client) (rd : Int → ReceivingData) (T : Int → List MonitorPacket) (acts : List WlanAct)
    (s : Wlan)
    (h : Path Wlan.step (Wlan.Airs T) (.init fun fd => RelaySys.init (sd fd) (q fd) (lp fd) (rd fd) (q' fd)) acts s) :
    ∃ airActs air, Path Bus.step AnyStep .init airActs air ∧ s.OneAir T air := by
  obtain ⟨hsound, hcaptured⟩ := h.of_invariant
    (fun s => ∀ fd, (s.vm fd).captured = ((s.vm fd).onAir (T fd)).map Transmission.stamped)
    (fun _ _ _ hs hG hstep => hG.sound hs hstep) fun _ => rfl
  obtain ⟨bacts, bus, hbus, hs⟩ := Wlan.inv_of_path hn hm hq hq' hlp hsound
  obtain ⟨more, bus', hmore, hmedium⟩ := hs.oneMedium
  exact hmedium.oneAir (Bus.path_map unframe (hbus.append hmore)) hcaptured

/-- A frame of one byte on channel 36, and the acknowledgement that the driver makes up for it -/
def probeTransmission : Transmission := ⟨5, 0, ⟨7, 60, true, 5180, [0x40]⟩, by decide, by decide⟩

def probePackets (fd : Int) : List MonitorPacket :=
  if fd = 4 then [.rx probeTransmission, .ack 5180 (Vector.replicate 6 1)] else []

/-- The machine 4 captures both packets, and the machine 5 injects the first one. -/
def probeOnTheAir : List WlanAct :=
  (acceptCall 4 ++ acceptCall 5).map .hub ++
    [RelayAct.getTail, .next (some ⟨5, 0⟩) (some ⟨(Mem.fill 0).write 0 probeTransmission.stamped.bytes, 23⟩),
      .getTail, .next none (some ⟨(Mem.fill 0).write 0 (Hwsim.monitorAck 5180 (Vector.replicate 6 1)), 24⟩),
      .send .fetch, .send (.castLen [[.sends 4]]), .send (.castTimestamp [[.sends 16]]),
      .send (.castPayload [[.sends 23]]), .send .usedHead].map (.vm 4) ++
    (recvCall 4 probeTransmission.stamped.frame.encode ++ [Act.receiver .castStart, .receiver .sendPre,
      .receiver (.send [.sends 43])]).map .hub ++
    [RelayAct.receive (.recvLen .connected 4), .receive (.recvTimestamp 16), .receive .getTail,
      .receive (.recvPayload 23), .receive .putTail, .getHead, .inject 23 (some ⟨8, 0⟩), .usedHead].map (.vm 5)

theorem wlan_radioToRadio_probe : ∃ q s,
    aqNew (some (Mem.fill ⟨0, 0, 0, false, Mem.fill 0⟩)) 2536 queueSize = some q ∧
    Path Wlan.step (Wlan.Airs probePackets)
      (.init fun _ => RelaySys.init ⟨Mem.fill 0, Mem.fill 0, 0, 0, false, none⟩ q
        ⟨3, 0, Mem.fill 0, 0, 0, .connected, .connected, .tcp, .client, false⟩ ⟨Mem.fill 0, Mem.fill 0, 0, 0, 0⟩ q)
      probeOnTheAir s ∧
    (s.vm 5).injected.map Injection.frame = [probeTransmission.stamped] ∧
    ∃ airActs air, Path Bus.step AnyStep .init airActs air ∧
      s.OneAir probePackets air := by
  refine ⟨_, _, rfl, .of_run (by decide +kernel), by decide +kernel, ?_⟩
  exact wlan_radioToRadio queueSize queueSize 2536 (fun _ => some (Mem.fill ⟨0, 0, 0, false, Mem.fill 0⟩))
    (fun _ => some (Mem.fill ⟨0, 0, 0, false, Mem.fill 0⟩)) _ _ (by decide) (by decide) (fun _ => rfl) (fun _ => rfl)
    _ _ (fun _ => rfl) _ probePackets probeOnTheAir _
    (.of_run (by decide +kernel))

end WlanxVms
