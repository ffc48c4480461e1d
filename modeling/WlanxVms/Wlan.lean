import WlanxVms.Wlan.Hub
import WlanxVms.Wlan.Vm

/-!
# The wireless medium across the virtual machines

Virtual machines, each with an injector, and the bcaster that they are connected to. A machine captures the frames that
its card sends, and injects those that the others sent. The bytes of each connection are those that the injector's
`lisa_cast` and the `lisa_send`s of the bcaster left on the sockets; both sides take them in pieces of any size.
`wlan_oneMedium` says what the whole is: one medium, on which all machines hear the frames of the others in one order.
-/

namespace WlanxVms
open Injector Bcaster Broadcast Framing

/-- The packet that a frame is sent as -/
def Injector.Stamped.frame (x : Stamped) : Frame where
  timestamp := beBytes 8 x.sec.toNat ++ beBytes 8 x.nsec.toNat
  payload := x.bytes.take bufferSize
  timestamp_length := by simp
  size_le := by
    rw [List.length_take]
    unfold bufferSize maxSize
    omega

/-- The frame that a packet carries -/
def unframe (p : List UInt8) : Stamped :=
  ⟨UInt64.ofNat (beValue ((p.drop 4).take 8)), UInt64.ofNat (beValue ((p.drop 12).take 8)), p.drop 20⟩

/-- The packets of frames -/
def packets (F : Int → List Stamped) (fd : Int) : List Frame := (F fd).map Stamped.frame

/-- The bcaster, and the machine behind each of its connections -/
structure Wlan where
  hub : Metered
  vm : Int → RelaySys

inductive WlanAct where
  | hub (a : Act)
  | vm (fd : Int) (a : RelayAct)

namespace Wlan

def init (vm : Int → RelaySys) : Wlan := ⟨.init initListener, vm⟩

/-- A `recv` of the bcaster takes the next bytes that the machine's socket took. -/
def fromSocket (s : Wlan) : Act → Bool
  | .receiver (.part2 _ bs) =>
    match s.hub.sys.receiver with
    | .found clfd _ _ => bs <+: (s.vm clfd).sender.onSocket.drop (s.hub.got clfd)
    | _ => true
  | _ => true

/-- What a socket of the bcaster takes is on the way to the machine. -/
def step (s : Wlan) : WlanAct → Option Wlan
  | .hub a =>
    if s.fromSocket a then
      (s.hub.step a).map fun hub =>
        { hub, vm := fun fd => (s.vm fd).feed ((hub.sys.onSocket fd).drop (s.hub.sys.onSocket fd).length) }
    else none
  | .vm fd a => ((s.vm fd).vmStep a).map fun t => { s with vm := Function.update s.vm fd t }

/-- The cards capture the frames `F`, the connections carry the bytes, and the bcaster meets none of its known
defects. -/
def Sound (F : Int → List Stamped) (s : Wlan) : WlanAct → Prop
  | .hub a => Metered.Orderly (packets F) s.hub a
  | .vm fd a => RelaySys.Carries (s.vm fd) a ∧ ∀ t ∈ (s.vm fd).vmStep a, t.captured <+: F fd

instance (F : Int → List Stamped) (s : Wlan) : (a : WlanAct) → Decidable (Sound F s a)
  | .hub a => inferInstanceAs (Decidable (Metered.Orderly (packets F) s.hub a))
  | .vm _ _ => inferInstanceAs (Decidable (_ ∧ _))

end Wlan

/-! ### Packets and frames -/

theorem unframe_frame (x : Stamped) : unframe x.frame.encode = ⟨x.sec, x.nsec, x.bytes.take bufferSize⟩ := by
  have h4 : x.frame.encode.drop 4 = beBytes 8 x.sec.toNat ++ (beBytes 8 x.nsec.toNat ++ x.bytes.take bufferSize) := by
    rw [Frame.encode, List.append_assoc, List.drop_left' (length_beBytes ..), Stamped.frame, List.append_assoc]
  have h12 : x.frame.encode.drop 12 = beBytes 8 x.nsec.toNat ++ x.bytes.take bufferSize := by
    rw [show 12 = 4 + 8 from rfl, ← List.drop_drop, h4, List.drop_left' (length_beBytes ..)]
  have h20 : x.frame.encode.drop 20 = x.bytes.take bufferSize := by
    rw [show 20 = 12 + 8 from rfl, ← List.drop_drop, h12, List.drop_left' (length_beBytes ..)]
  have hnum : ∀ v : UInt64, UInt64.ofNat (beValue (beBytes 8 v.toNat)) = v := fun v => by
    rw [beValue_beBytes (show v.toNat < 256 ^ 8 from v.toNat_lt), UInt64.ofNat_toNat]
  rw [unframe, h4, h12, h20, List.take_left' (length_beBytes ..), List.take_left' (length_beBytes ..), hnum, hnum]

theorem encode_item {x : Stamped} (hx : x.bytes.length ≤ bufferSize) : x.item.encode = x.frame.encode := by
  rw [QItem.encode, x.bytes_item, QItem.header, Frame.encode, Stamped.frame]
  simp only [List.take_of_length_le hx, List.append_assoc]
  rfl

theorem unframe_of_small {x : Stamped} (hx : x.bytes.length ≤ bufferSize) : unframe x.frame.encode = x := by
  rw [unframe_frame, List.take_of_length_le hx]

theorem wire_unframe {ps : List (List UInt8)} (h : ∀ p ∈ ps, ∃ x : Stamped, x.frame.encode = p) :
    wire ((ps.map unframe).map Stamped.item) = ps.flatten ∧ ∀ x ∈ ps.map unframe, x.bytes.length ≤ bufferSize := by
  induction ps with
  | nil => exact ⟨rfl, List.forall_mem_nil _⟩
  | cons p ps ih =>
    obtain ⟨⟨x, rfl⟩, hps⟩ := List.forall_mem_cons.1 h
    obtain ⟨hwire, hsmall⟩ := ih hps
    have hx : (unframe x.frame.encode).bytes.length ≤ bufferSize := by
      rw [unframe_frame, List.length_take]
      exact Nat.min_le_left ..
    have hself : (unframe x.frame.encode).frame.encode = x.frame.encode := by
      rw [unframe_frame]
      simp only [Stamped.frame, Frame.encode, List.take_take, Nat.min_self]
    refine ⟨?_, List.forall_mem_cons.2 ⟨hx, hsmall⟩⟩
    rw [List.map_cons, List.map_cons, wire_cons, hwire, encode_item hx, hself, List.flatten_cons]

theorem wire_item {xs : List Stamped} (h : ∀ x ∈ xs, x.bytes.length ≤ bufferSize) :
    wire (xs.map Stamped.item) = ((xs.map Stamped.frame).map Frame.encode).flatten := by
  induction xs with
  | nil => rfl
  | cons x xs ih =>
    obtain ⟨hx, hxs⟩ := List.forall_mem_cons.1 h
    rw [List.map_cons, wire_cons, ih hxs, encode_item hx]
    rfl

namespace Wlan
variable {n m : Nat} {F : Int → List Stamped} {bus : Bus Int (List UInt8)} {s t : Wlan}

/-! ### Every run -/

/-- What the socket of a machine took is received by the bcaster, and what a socket of the bcaster took is received
by its machine. -/
structure Inv (n m : Nat) (F : Int → List Stamped) (bus : Bus Int (List UInt8)) (s : Wlan) : Prop where
  hub : s.hub.Inv (packets F) bus
  sends : ∀ fd, (s.vm fd).Sends n
  captured : ∀ fd, (s.vm fd).captured <+: F fd
  got : ∀ fd, s.hub.got fd ≤ (s.vm fd).sender.onSocket.length
  receives : ∀ fd, (s.vm fd).Receives m ((s.hub.sys.given fd).map unframe)

theorem mem_packets {fd : Int} {p : List UInt8} (hp : p ∈ stream (packets F) fd) : ∃ x : Stamped, x.frame.encode = p := by
  obtain ⟨f, hf, rfl⟩ := List.mem_map.1 hp
  obtain ⟨x, -, rfl⟩ := List.mem_map.1 hf
  exact ⟨x, rfl⟩

theorem got_step {a : Act} {hub : Metered} (hgot : ∀ fd, s.hub.got fd ≤ (s.vm fd).sender.onSocket.length)
    (ha : s.fromSocket a = true) (hs : s.hub.step a = some hub) (fd : Int) :
    hub.got fd ≤ (s.vm fd).sender.onSocket.length := by
  obtain ⟨sys, hsys, rfl⟩ := Option.map_eq_some_iff.1 hs
  show s.hub.gotAfter a fd ≤ _
  cases a with
  | listener a => exact hgot fd
  | receiver a =>
    cases a with
    | part2 rc bs =>
      obtain ⟨clfd, clnum, locked, hpc, -, -⟩ := Sys.part2_cases hsys
      simp only [fromSocket, hpc] at ha
      simp only [Metered.gotAfter, hpc]
      by_cases hfd : fd = clfd
      · subst hfd
        have hle := (of_decide_eq_true ha : bs <+: _).length_le
        rw [List.length_drop] at hle
        have := hgot fd
        rw [Function.update_self]
        omega
      · rw [Function.update_of_ne hfd]
        exact hgot fd
    | _ => exact hgot fd

theorem Inv.hubStep (h : s.Inv n m F bus) {a : Act} (hG : Metered.Orderly (packets F) s.hub a)
    (hs : s.step (.hub a) = some t) :
    ∃ bacts bus', Path Bus.step AnyStep bus bacts bus' ∧ t.Inv n m F bus' := by
  obtain ⟨ha, hs⟩ := Option.ite_none_right_eq_some.1 hs
  obtain ⟨hub, hhub, rfl⟩ := Option.map_eq_some_iff.1 hs
  obtain ⟨bacts, bus', hbus, hinv⟩ := h.hub.step hG hhub
  obtain ⟨-, ahead, -, hahead⟩ := hinv.ahead
  refine ⟨bacts, bus', hbus, hinv, fun fd => ?_, fun fd => h.captured fd, fun fd => got_step h.got ha hhub fd, fun fd => ?_⟩
  · exact ((h.sends fd).of_same (t := (s.vm fd).feed _) rfl rfl).1
  · obtain ⟨sys, hsys, rfl⟩ := Option.map_eq_some_iff.1 hhub
    obtain ⟨ps, hps⟩ := Sys.given_step hsys fd
    have hframes : ∀ p ∈ ps, ∃ x : Stamped, x.frame.encode = p := fun p hp => by
      obtain ⟨sender, hmem⟩ := hahead.mem_stream (hps ▸ List.mem_append_right _ hp)
      exact mem_packets hmem
    obtain ⟨hwire, hsmall⟩ := wire_unframe hframes
    have hnew : (sys.onSocket fd).drop (s.hub.sys.onSocket fd).length = wire ((ps.map unframe).map Stamped.item) := by
      rw [hwire, Sys.onSocket, Sys.onSocket, ← hps, List.flatten_append, List.drop_left]
    show ((s.vm fd).feed _).Receives m ((sys.given fd).map unframe)
    rw [hnew, ← hps, List.map_append]
    exact (h.receives fd).feed hsmall

theorem Inv.vmStep (h : s.Inv n m F bus) {fd : Int} {a : RelayAct} (hG : Sound F s (.vm fd a))
    (hs : s.step (.vm fd a) = some t) : t.Inv n m F bus := by
  obtain ⟨u, hu, rfl⟩ := Option.map_eq_some_iff.1 hs
  obtain ⟨hsends, -, hsocket⟩ := (h.sends fd).step hG.1 hu
  have hreceives := (h.receives fd).step hG.1 hu
  have hcases : ∀ {P : Int → RelaySys → Prop}, P fd u → (∀ fd', P fd' (s.vm fd')) →
      ∀ fd', P fd' (Function.update s.vm fd u fd') := by
    intro P hself hothers fd'
    by_cases he : fd' = fd
    · rw [he, Function.update_self]; exact hself
    · rw [Function.update_of_ne he]; exact hothers fd'
  refine ⟨h.hub, ?_, ?_, ?_, ?_⟩
  · exact hcases (P := fun _ u => u.Sends n) hsends h.sends
  · exact hcases (P := fun fd u => u.captured <+: F fd) (hG.2 u hu) h.captured
  · exact hcases (P := fun fd u => s.hub.got fd ≤ u.sender.onSocket.length) ((h.got fd).trans hsocket.length_le) h.got
  · exact hcases (P := fun fd u => u.Receives m ((s.hub.sys.given fd).map unframe)) hreceives h.receives

theorem Inv.step (h : s.Inv n m F bus) {a : WlanAct} (hG : Sound F s a) (hs : s.step a = some t) :
    ∃ bacts bus', Path Bus.step AnyStep bus bacts bus' ∧ t.Inv n m F bus' := by
  cases a with
  | hub a => exact h.hubStep hG hs
  | vm fd a => exact ⟨[], bus, .nil bus, h.vmStep hG hs⟩

/-- Nothing is on its way: the bcaster waits and has received what the sockets of the machines took, no queue holds a
frame, and no machine has a part of one. -/
structure Settled (s : Wlan) : Prop where
  hub : s.hub.sys.receiver = .idle
  sent : ∀ fd ∈ s.hub.sys.lp.table, (s.vm fd).sender.fifo.pending = [] ∧
    s.hub.got fd = (s.vm fd).sender.onSocket.length
  received : ∀ fd ∈ s.hub.sys.lp.table, (s.vm fd).receiver.stream = [] ∧ (s.vm fd).receiver.pc = .start ∧
    (s.vm fd).receiver.rd.lenReceived = 0 ∧ (s.vm fd).receiver.fifo.pending = []

/-- The machines are on one medium. What a machine published there it captured, in this order; what it injected is what
it heard: the frames of the others since it was accepted, in the order of the medium, each once and as it was captured.
The send and receive threads reach no assertion, and a machine ends only with an assertion of its profiling. When
nothing is on its way any more, everything captured was published, and everything heard was injected. -/
structure OneMedium (bus : Bus Int Stamped) (s : Wlan) : Prop where
  running : ∀ fd, (s.vm fd).sender.pc ≠ .aborted ∧ (s.vm fd).receiver.pc ≠ .aborted ∧
    (s.vm fd).receiver.pc ≠ .outOfBounds
  stops : ∀ fd, (s.vm fd).aborted = (profilingUpdates lagTimeStatic (s.vm fd).lagCalls).isNone
  members : bus.members.map Prod.fst = s.hub.sys.lp.table
  published : ∀ fd, bus.published fd <+: (s.vm fd).captured
  injected : ∀ v ∈ bus.members, (s.vm v.1).injected.map Injection.frame <+: bus.heard v.1 v.2
  outside : ∀ fd, fd ∉ s.hub.sys.lp.table → (s.vm fd).injected = []
  settled : s.Settled → ∀ v ∈ bus.members, bus.published v.1 = (s.vm v.1).captured ∧
    (s.vm v.1).injected.map Injection.frame = bus.heard v.1 v.2

theorem map_unframe {xs : List Stamped} (h : ∀ x ∈ xs, x.bytes.length ≤ bufferSize) :
    ((xs.map Stamped.frame).map Frame.encode).map unframe = xs := by
  induction xs with
  | nil => rfl
  | cons x xs ih =>
    obtain ⟨hx, hxs⟩ := List.forall_mem_cons.1 h
    rw [List.map_cons, List.map_cons, List.map_cons, ih hxs, unframe_of_small hx]

/-- The packets that the bcaster published are those of captured frames: the first ones of what the card captures, and
not more bytes than the machine has sent. -/
theorem Inv.published (h : s.Inv n m F bus) {ps : List (List UInt8)} {fd : Int} (hps : ps <+: stream (packets F) fd)
    (hlen : ps.flatten.length ≤ s.hub.got fd) :
    ps <+: ((s.vm fd).captured.map Stamped.frame).map Frame.encode := by
  have hsmall : ∀ x ∈ (s.vm fd).captured, x.bytes.length ≤ bufferSize := fun x hx => (h.sends fd).small hx
  refine prefix_of_length_flatten_le hps (((h.captured fd).map _).map _) (fun p hp hnil => ?_) ?_
  · obtain ⟨f, -, rfl⟩ := List.mem_map.1 hp
    have := f.isFrame_encode.le_length
    rw [hnil] at this
    exact absurd this (by decide)
  · rw [← wire_item hsmall]
    exact hlen.trans ((h.got fd).trans (h.sends fd).prefix_onSocket.length_le)

theorem Inv.oneMedium (h : s.Inv n m F bus) :
    ∃ bacts bus', Path Bus.step AnyStep bus bacts bus' ∧ s.OneMedium (bus'.map unframe) := by
  obtain ⟨bacts, bus', hbus, hahead⟩ := h.hub.ahead
  have hsmall : ∀ fd, ∀ x ∈ (s.vm fd).captured, x.bytes.length ≤ bufferSize := fun fd x hx => (h.sends fd).small hx
  refine ⟨bacts, bus', hbus, fun fd => ⟨(h.sends fd).taken.inv.running, (h.receives fd).running⟩,
    fun fd => (h.receives fd).profiled.stops, hahead.members, fun fd => ?_, fun v hv => ?_, fun fd hfd => ?_, fun hset v hv => ?_⟩
  · have hpre := (h.published (hahead.arrived fd).1 (hahead.arrived fd).2).map unframe
    rwa [map_unframe (hsmall fd), ← Bus.published_map] at hpre
  · rw [Bus.heard_map]
    exact (h.receives v.1).prefix_injected.trans ((hahead.given v hv).map _)
  · have hpre := (h.receives fd).prefix_injected
    rw [hahead.outside fd hfd] at hpre
    exact List.map_eq_nil_iff.1 (List.prefix_nil.1 hpre)
  · have hv' : v.1 ∈ s.hub.sys.lp.table := hahead.members ▸ List.mem_map_of_mem hv
    obtain ⟨hcomplete, hgiven⟩ := hahead.complete hset.hub
    obtain ⟨hempty, hgot⟩ := hset.sent v.1 hv'
    obtain ⟨hstream, hpc, hlen, hempty'⟩ := hset.received v.1 hv'
    constructor
    · -- all that was captured is on the socket, and the bcaster has received as much
      have hall : ((s.vm v.1).captured.map Stamped.frame).map Frame.encode <+: bus'.published v.1 := by
        have hpre : ((s.vm v.1).captured.map Stamped.frame).map Frame.encode <+: stream (packets F) v.1 :=
          ((h.captured v.1).map _).map _
        obtain ⟨rest, hrest⟩ := hpre
        rw [hcomplete v.1, hgot, (h.sends v.1).onSocket_eq hempty, wire_item (hsmall v.1), ← hrest]
        have hne : ∀ p ∈ rest.head?, 0 < p.length := fun p hp => by
          have hmem : p ∈ stream (packets F) v.1 := hrest ▸ List.mem_append_right _ (List.mem_of_mem_head? hp)
          obtain ⟨f, -, rfl⟩ := List.mem_map.1 hmem
          have := f.isFrame_encode.le_length
          omega
        have harr := (of_arrived (((s.vm v.1).captured.map Stamped.frame).map Frame.encode) hne).1
        rw [Nat.add_zero] at harr
        exact harr.symm ▸ List.prefix_rfl
      have heq := hall.eq_of_length_le (h.published (hahead.arrived v.1).1 (hahead.arrived v.1).2).length_le
      rw [Bus.published_map, ← heq, map_unframe (hsmall v.1)]
    · rw [(h.receives v.1).injected_eq hstream hpc hlen hempty', Bus.heard_map, hgiven v hv]

/-- A run refines the bus of the packets. -/
theorem inv_of_path {itemSize : Nat} {block block' : Int → Option (Mem QItem)} {q q' : Int → AqType QItem}
    (hn : 1 ≤ n ∧ n ≤ 65535) (hm : 1 ≤ m ∧ m ≤ 65535) (hq : ∀ fd, aqNew (block fd) itemSize n = some (q fd))
    (hq' : ∀ fd, aqNew (block' fd) itemSize m = some (q' fd)) {sd : Int → SendingData} {lp : Int → Lisa}
    (hlp : ∀ fd, (lp fd).clsvr = .client) {rd : Int → ReceivingData} {acts : List WlanAct}
    (h : Path step (Sound F) (.init fun fd => RelaySys.init (sd fd) (q fd) (lp fd) (rd fd) (q' fd)) acts s) :
    ∃ bacts bus, Path Bus.step AnyStep .init bacts bus ∧ s.Inv n m F bus := by
  have hinit : Inv n m F .init (.init fun fd => RelaySys.init (sd fd) (q fd) (lp fd) (rd fd) (q' fd)) := by
    refine ⟨Metered.inv_init _, fun fd => ?_, fun fd => List.nil_prefix, fun fd => Nat.zero_le _, fun fd => ?_⟩
    · obtain ⟨hrep, hnum⟩ := AqType.Rep.new hn.1 hn.2 (hq fd)
      exact RelaySys.sends_init hrep hnum (hlp fd)
    · obtain ⟨hrep, hnum⟩ := AqType.Rep.new hm.1 hm.2 (hq' fd)
      exact RelaySys.receives_init hrep hnum
  exact h.invariant (fun s => ∃ bacts bus, Path Bus.step AnyStep .init bacts bus ∧ s.Inv n m F bus)
    (fun s a t ⟨bacts, bus, hbus, hs⟩ hG hstep => by
      obtain ⟨more, bus', hmore, ht⟩ := hs.step hG hstep
      exact ⟨bacts ++ more, bus', hbus.append hmore, ht⟩)
    ⟨[], .init, .nil _, hinit⟩

end Wlan

/-- However the threads of the machines and of the bcaster interleave, clients come and the streams are cut, the machines
are on one medium, in the runs in which the connections carry the bytes and the known defects of the bcaster are not
met. -/
theorem wlan_oneMedium (n m itemSize : Nat) (block block' : Int → Option (Mem QItem)) (q q' : Int → AqType QItem)
    (hn : 1 ≤ n ∧ n ≤ 65535) (hm : 1 ≤ m ∧ m ≤ 65535) (hq : ∀ fd, aqNew (block fd) itemSize n = some (q fd))
    (hq' : ∀ fd, aqNew (block' fd) itemSize m = some (q' fd)) (sd : Int → SendingData) (lp : Int → Lisa)
    (hlp : ∀ fd, (lp fd).clsvr = .client) (rd : Int → ReceivingData) (F : Int → List Stamped) (acts : List WlanAct)
    (s : Wlan)
    (h : Path Wlan.step (Wlan.Sound F) (.init fun fd => RelaySys.init (sd fd) (q fd) (lp fd) (rd fd) (q' fd)) acts s) :
    ∃ bacts bus, Path Bus.step AnyStep .init bacts bus ∧ s.OneMedium bus := by
  obtain ⟨bacts, bus, hbus, hs⟩ := Wlan.inv_of_path hn hm hq hq' hlp h
  obtain ⟨more, bus', hmore, hmedium⟩ := hs.oneMedium
  exact ⟨_, bus'.map unframe, Bus.path_map unframe (hbus.append hmore), hmedium⟩

/-- A frame of one byte that the card of the machine 4 sends -/
def oneByteFrame : Stamped := ⟨5, 0, [0]⟩

/-- The bcaster receives the frame in two parts, the first one before the rest was sent. -/
def twoOnAMedium : List WlanAct :=
  (acceptCall 4 ++ acceptCall 5).map .hub ++
    [RelayAct.getTail, .next (some ⟨5, 0⟩) (some ⟨Mem.fill 0, 1⟩), .send .fetch, .send (.castLen [[.sends 4]]),
      .send (.castTimestamp [[.sends 16]])].map (.vm 4) ++
    (recvCall 4 (oneByteFrame.frame.encode.take 19) ++ [Act.receiver .loop]).map .hub ++
    [RelayAct.send (.castPayload [[.sends 1]]), .send .usedHead].map (.vm 4) ++
    (recvCall 4 (oneByteFrame.frame.encode.drop 19) ++ [Act.receiver .castStart, .receiver .sendPre,
      .receiver (.send [.sends 21])]).map .hub ++
    [RelayAct.receive (.recvLen .connected 4), .receive (.recvTimestamp 16), .receive .getTail,
      .receive (.recvPayload 1), .receive .putTail, .getHead, .inject 1 (some ⟨8, 0⟩), .usedHead].map (.vm 5)

theorem wlan_oneMedium_two : ∃ q s,
    aqNew (some (Mem.fill ⟨0, 0, 0, false, Mem.fill 0⟩)) 2536 queueSize = some q ∧
    Path Wlan.step (Wlan.Sound fun fd => if fd = 4 then [oneByteFrame] else [])
      (.init fun _ => RelaySys.init ⟨Mem.fill 0, Mem.fill 0, 0, 0, false, none⟩ q
        ⟨3, 0, Mem.fill 0, 0, 0, .connected, .connected, .tcp, .client, false⟩ ⟨Mem.fill 0, Mem.fill 0, 0, 0, 0⟩ q)
      twoOnAMedium s ∧
    [4, 5].map (fun fd => (s.vm fd).injected.map Injection.frame) = [[], [oneByteFrame]] ∧
    ∃ bacts bus, Path Bus.step AnyStep .init bacts bus ∧ s.OneMedium bus := by
  refine ⟨_, _, rfl, .of_run (by decide +kernel), by decide +kernel, ?_⟩
  exact wlan_oneMedium queueSize queueSize 2536 (fun _ => some (Mem.fill ⟨0, 0, 0, false, Mem.fill 0⟩))
    (fun _ => some (Mem.fill ⟨0, 0, 0, false, Mem.fill 0⟩)) _ _ (by decide) (by decide) (fun _ => rfl) (fun _ => rfl)
    _ _ (fun _ => rfl) _ (fun fd => if fd = 4 then [oneByteFrame] else []) twoOnAMedium _ (.of_run (by decide +kernel))

end WlanxVms
