import WlanxVms.Injector.Relay

/-!
# One virtual machine (`ci_queues.c`)

An injector runs all four threads. Its state is that of `RelaySys`, with both halves in one machine: the socket of the
sender leads to the bcaster, and the bytes that the receiver reads come from there (`feed`). The halves share nothing
but the lisa, and what the receive thread does to it is an action of the sending half (`SendAct.receiveThread`).
-/

namespace WlanxVms
namespace Injector

/-- The item that a received frame fills -/
def Stamped.item (x : Stamped) : QItem := ⟨x.bytes.length, x.sec, x.nsec, true, (Mem.fill 0).write 0 x.bytes⟩

theorem Stamped.bytes_item (x : Stamped) : x.item.bytes = x.bytes :=
  Mem.read_write_self (Mem.fill 0) 0 x.bytes

@[simp] theorem Stamped.stamped_item (x : Stamped) : x.item.stamped = x := by
  rw [QItem.stamped, x.bytes_item]
  rfl

theorem QItem.encode_stamped (x : QItem) : x.stamped.item.encode = x.encode := by
  rw [QItem.encode, QItem.encode, Stamped.bytes_item, QItem.header, QItem.header]
  show beBytes 4 x.bytes.length ++ _ ++ x.bytes = _
  rw [x.length_bytes]
  rfl

theorem wire_stamped (xs : List QItem) : wire ((xs.map QItem.stamped).map Stamped.item) = wire xs := by
  induction xs with
  | nil => rfl
  | cons x xs ih => rw [List.map_cons, List.map_cons, wire_cons, wire_cons, ih, x.encode_stamped]

namespace RelaySys

/-- `repeat_sending_function`: the bytes do not come back to this machine. -/
def vmSend (s : RelaySys) (a : SendAct) : Option RelaySys :=
  (s.sender.step a).map fun sender => { s with sender, packetsSent := i32 (s.packetsSent + 2 * a.released) }

/-- All threads end with the machine. -/
def vmStep (s : RelaySys) (a : RelayAct) : Option RelaySys :=
  if s.aborted then none
  else match a with
    | .send a => if a.ofSendThread then s.vmSend a else none
    | a => s.step a

/-- More bytes are on the way to the receiver. -/
def feed (s : RelaySys) (bs : List UInt8) : RelaySys := { s with receiver := s.receiver.ahead bs }

/-- What was captured goes through the queue of size `n` to the socket. -/
structure Sends (n : Nat) (s : RelaySys) : Prop where
  taken : s.sender.Taken n
  captured : s.captured = s.sender.fifo.published.map QItem.stamped

/-- Of the frames `xs`, which were sent to this machine, the first ones went through the queue of size `m` and were
injected. The machine ends only with its profiling. -/
structure Receives (m : Nat) (xs : List Stamped) (s : RelaySys) : Prop where
  receiver : s.receiver.Inv m (xs.map Stamped.item)
  injected : s.injected.map Injection.frame = s.receiver.fifo.seen.map QItem.stamped
  profiled : s.Profiled

variable {n m : Nat} {xs ys : List Stamped} {s t : RelaySys}

/-! ### The sending half -/

theorem Sends.small (h : s.Sends n) {x : Stamped} (hx : x ∈ s.captured) : x.bytes.length ≤ bufferSize := by
  rw [h.captured] at hx
  obtain ⟨y, hy, rfl⟩ := List.mem_map.1 hx
  exact (y.length_bytes).le.trans (h.taken.inv.small y hy)

theorem Sends.prefix_onSocket (h : s.Sends n) : s.sender.onSocket <+: wire (s.captured.map Stamped.item) := by
  rw [h.captured, wire_stamped]
  exact h.taken.framesCounted.initial

/-- When the queue is empty, everything captured is on the socket. -/
theorem Sends.onSocket_eq (h : s.Sends n) (hempty : s.sender.fifo.pending = []) :
    s.sender.onSocket = wire (s.captured.map Stamped.item) := by
  have hall : s.sender.fifo.published.take s.sender.fifo.released = s.sender.fifo.published :=
    List.take_of_length_le (List.drop_eq_nil_iff.1 hempty)
  have hsock := h.taken.framesCounted.onSocket
  rw [hempty, hall, show wire [] = [] from rfl, List.take_nil, List.append_nil] at hsock
  rw [h.captured, wire_stamped, hsock]

theorem Sends.of_same (h : s.Sends n) (hsender : t.sender = s.sender) (hcaptured : t.captured = s.captured) :
    t.Sends n ∧ s.captured <+: t.captured ∧ s.sender.onSocket <+: t.sender.onSocket := by
  refine ⟨⟨hsender ▸ h.taken, ?_⟩, hcaptured ▸ List.prefix_rfl, hsender ▸ List.prefix_rfl⟩
  rw [hsender, hcaptured]
  exact h.captured

theorem Sends.next (h : s.Sends n) {now : Option Timespec} {packet : Option Packet} (hs : s.next now packet = some t) :
    t.Sends n ∧ s.captured <+: t.captured ∧ s.sender.onSocket <+: t.sender.onSocket := by
  rcases next_cases hs with rfl | ⟨p, slot, -, -, hp, rfl⟩ | ⟨p, sender, -, -, hstep, rfl⟩
  · exact h.of_same rfl rfl
  · have ht := h.taken.of_frame (h.taken.inv.fillTail hp { s.sender.fifo.q.data slot with
      sec := (captureTime now).1, nsec := (captureTime now).2, positive := true }) rfl rfl rfl rfl
    exact ⟨⟨ht, h.captured⟩, List.prefix_rfl, List.prefix_rfl⟩
  · obtain ⟨ht, hsock, -, x, hpub, hstamped, -⟩ := h.taken.capture hstep
    refine ⟨⟨ht, ?_⟩, List.prefix_append .., hsock ▸ List.prefix_rfl⟩
    show s.captured ++ [_] = sender.fifo.published.map _
    rw [hpub, List.map_append, ← h.captured, List.map_singleton, hstamped]

theorem Sends.step {a : RelayAct} (h : s.Sends n) (hG : Carries s a) (hs : s.vmStep a = some t) :
    t.Sends n ∧ s.captured <+: t.captured ∧ s.sender.onSocket <+: t.sender.onSocket := by
  obtain ⟨-, hs⟩ := Option.ite_none_left_eq_some.1 hs
  cases a with
  | getTail =>
    cases hs
    have ht := h.taken.of_frame (t := { s.sender with fifo := s.sender.fifo.getTail }) h.taken.inv.captureTail rfl rfl rfl rfl
    exact ⟨⟨ht, h.captured⟩, List.prefix_rfl, List.prefix_rfl⟩
  | next now packet => exact h.next hs
  | send a =>
    obtain ⟨ha, hs⟩ := Option.ite_none_right_eq_some.1 hs
    obtain ⟨sender, hstep, rfl⟩ := Option.map_eq_some_iff.1 hs
    have ht := h.taken.step hG hstep
    obtain ⟨hpub, hcasts, -⟩ := h.taken.inv.sendThread ha hstep
    refine ⟨⟨ht, ?_⟩, List.prefix_rfl, h.taken.onSocket_prefix ht hcasts⟩
    show s.captured = sender.fifo.published.map _
    rw [hpub]
    exact h.captured
  | receive a =>
    obtain ⟨-, hs⟩ := Option.ite_none_right_eq_some.1 hs
    obtain ⟨receiver, -, rfl⟩ := Option.map_eq_some_iff.1 hs
    exact h.of_same rfl rfl
  | inject rc now =>
    obtain ⟨-, hs⟩ := Option.ite_none_left_eq_some.1 hs
    obtain ⟨slot, receiver, -, -, ⟨-, rfl⟩ | ⟨-, lagTime, aborted, -, rfl⟩⟩ := inject_cases hs
    · exact h.of_same rfl rfl
    · exact h.of_same rfl rfl
  | getHead | usedHead =>
    obtain ⟨-, hs⟩ := Option.ite_none_left_eq_some.1 hs
    obtain ⟨receiver, -, rfl⟩ := Option.map_eq_some_iff.1 hs
    exact h.of_same rfl rfl

/-! ### The receiving half -/

theorem Profiled.of_same (h : s.Profiled) (hinjected : t.injected = s.injected) (haborted : t.aborted = s.aborted)
    (hlagTime : t.lagTime = s.lagTime) : t.Profiled := by
  rw [Profiled, lagCalls, hinjected, haborted, hlagTime]
  exact h

theorem Receives.of_same (h : s.Receives m xs) (hreceiver : t.receiver = s.receiver) (hinjected : t.injected = s.injected)
    (haborted : t.aborted = s.aborted) (hlagTime : t.lagTime = s.lagTime) : t.Receives m xs := by
  refine ⟨hreceiver ▸ h.receiver, ?_, h.profiled.of_same hinjected haborted hlagTime⟩
  rw [hreceiver, hinjected]
  exact h.injected

theorem Receives.feed (h : s.Receives m xs) (hsmall : ∀ y ∈ ys, y.bytes.length ≤ bufferSize) :
    (s.feed (wire (ys.map Stamped.item))).Receives m (xs ++ ys) := by
  induction ys generalizing s xs with
  | nil =>
    rw [List.append_nil]
    exact ⟨by simpa [RelaySys.feed, ReceiveSys.ahead, wire] using h.receiver, h.injected, h.profiled⟩
  | cons y ys ih =>
    obtain ⟨hy, hys⟩ := List.forall_mem_cons.1 hsmall
    have hone : (s.feed y.item.encode).Receives m (xs ++ [y]) := by
      refine ⟨?_, h.injected, h.profiled⟩
      rw [List.map_append, List.map_singleton]
      exact h.receiver.snoc hy
    have hrest := ih hone hys
    rw [List.append_assoc] at hrest
    rw [List.map_cons, wire_cons]
    have hfeed : (s.feed y.item.encode).feed (wire (ys.map Stamped.item)) =
        s.feed (y.item.encode ++ wire (ys.map Stamped.item)) := by
      simp only [RelaySys.feed, ReceiveSys.ahead_append]
    rw [← hfeed]
    exact hrest

theorem Receives.receive (h : s.Receives m xs) {a : ReceiveAct} {receiver : ReceiveSys}
    (hG : ReceiveSys.Delivers s.receiver a) (hs : s.receiver.step a = some receiver)
    (hseen : receiver.fifo.seen = s.receiver.fifo.seen) (hreceiver : t.receiver = receiver)
    (hinjected : t.injected = s.injected) (haborted : t.aborted = s.aborted) (hlagTime : t.lagTime = s.lagTime) :
    t.Receives m xs := by
  refine ⟨hreceiver ▸ h.receiver.step hG hs, ?_, h.profiled.of_same hinjected haborted hlagTime⟩
  rw [hreceiver, hinjected, hseen]
  exact h.injected

theorem Receives.step {a : RelayAct} (h : s.Receives m xs) (hG : Carries s a) (hs : s.vmStep a = some t) :
    t.Receives m xs := by
  obtain ⟨hrun, hs⟩ := Option.ite_none_left_eq_some.1 hs
  cases a with
  | getTail => cases hs; exact h.of_same rfl rfl rfl rfl
  | next now packet =>
    rcases next_cases hs with rfl | ⟨p, slot, -, -, -, rfl⟩ | ⟨p, sender, -, -, -, rfl⟩ <;> exact h.of_same rfl rfl rfl rfl
  | send a =>
    obtain ⟨-, hs⟩ := Option.ite_none_right_eq_some.1 hs
    obtain ⟨sender, -, rfl⟩ := Option.map_eq_some_iff.1 hs
    exact h.of_same rfl rfl rfl rfl
  | receive a =>
    obtain ⟨⟨ha, -⟩, hs⟩ := Option.ite_none_right_eq_some.1 hs
    obtain ⟨receiver, hstep, rfl⟩ := Option.map_eq_some_iff.1 hs
    exact h.receive hG hstep (ReceiveSys.step_receiveThread ha hstep).1 rfl rfl rfl rfl
  | getHead =>
    obtain ⟨-, hs⟩ := Option.ite_none_left_eq_some.1 hs
    obtain ⟨receiver, hstep, rfl⟩ := Option.map_eq_some_iff.1 hs
    exact h.receive (show ReceiveSys.Delivers _ .getHead from trivial) hstep
      (ReceiveSys.step_consumer (.inl rfl) hstep).1 rfl rfl rfl rfl
  | inject rc now =>
    obtain ⟨-, hs⟩ := Option.ite_none_left_eq_some.1 hs
    obtain ⟨slot, receiver, hc, huse, hcases⟩ := inject_cases hs
    have hprofiled := h.profiled.inject (Bool.eq_false_of_not_eq_true hrun) (fun slot hc => h.receiver.positive hc) hs
    obtain ⟨hseen, -⟩ := ReceiveSys.step_use hc huse
    have hr := h.receiver.step (show ReceiveSys.Delivers _ .use from trivial) huse
    let i : Injection := ⟨(s.receiver.fifo.q.data slot).stamped, rc, now⟩
    have hinjected : (s.injected ++ [i]).map Injection.frame = receiver.fifo.seen.map QItem.stamped := by
      rw [hseen, List.map_append, List.map_append, h.injected]
      rfl
    rcases hcases with ⟨-, rfl⟩ | ⟨-, lagTime, aborted, -, rfl⟩
    · exact ⟨hr, hinjected, hprofiled⟩
    · exact ⟨hr, hinjected, hprofiled⟩
  | usedHead =>
    obtain ⟨-, hs⟩ := Option.ite_none_left_eq_some.1 hs
    obtain ⟨receiver, hstep, rfl⟩ := Option.map_eq_some_iff.1 hs
    exact h.receive (show ReceiveSys.Delivers _ .usedHead from trivial) hstep
      (ReceiveSys.step_consumer (.inr rfl) hstep).1 rfl rfl rfl rfl

theorem map_stamped_item (xs : List Stamped) : (xs.map Stamped.item).map QItem.stamped = xs := by
  rw [List.map_map]
  exact (List.map_congr_left fun x _ => x.stamped_item).trans (List.map_id xs)

theorem Receives.prefix_injected (h : s.Receives m xs) : s.injected.map Injection.frame <+: xs := by
  obtain ⟨done, rest, -, -, hitems, hsame, -, -⟩ := h.receiver.place
  have hdone : done.map QItem.stamped <+: xs := by
    have hpre : done.map QItem.stamped <+: (xs.map Stamped.item).map QItem.stamped := by
      rw [hitems]
      exact (List.prefix_append ..).map _
    rwa [map_stamped_item] at hpre
  rw [h.injected, h.receiver.fifo.seen, List.map_take, map_stamped_of_same hsame]
  exact (List.take_prefix ..).trans hdone

theorem Receives.injected_eq (h : s.Receives m xs) (hstream : s.receiver.stream = []) (hpc : s.receiver.pc = .start)
    (hlen : s.receiver.rd.lenReceived = 0) (hempty : s.receiver.fifo.pending = []) :
    s.injected.map Injection.frame = xs := by
  rcases h.receiver.delivered hstream hpc with hsame | ⟨hbad, -⟩
  · have hreleased : s.receiver.fifo.released ≤ s.receiver.fifo.numSeen := by
      unfold FifoSys.numSeen
      split <;> omega
    have hall : s.receiver.fifo.published.take s.receiver.fifo.numSeen = s.receiver.fifo.published :=
      List.take_of_length_le ((List.drop_eq_nil_iff.1 hempty).trans hreleased)
    rw [h.injected, h.receiver.fifo.seen, hall, map_stamped_of_same hsame, map_stamped_item]
  · rw [hlen] at hbad
    cases hbad

theorem Receives.running (h : s.Receives m xs) : s.receiver.pc ≠ .aborted ∧ s.receiver.pc ≠ .outOfBounds := by
  obtain ⟨_, _, _, _, -, -, -, hat⟩ := h.receiver.place
  exact hat.running

theorem sends_init {sd : SendingData} {q q' : AqType QItem} {lp : Lisa} {rd : ReceivingData} (hq : q.Rep [])
    (hn : q.numItems = n) (hlp : lp.clsvr = .client) : (init sd q lp rd q').Sends n :=
  ⟨⟨.init hq hn, hlp, rfl⟩, rfl⟩

theorem receives_init {sd : SendingData} {q q' : AqType QItem} {lp : Lisa} {rd : ReceivingData} (hq' : q'.Rep [])
    (hm : q'.numItems = m) : (init sd q lp rd q').Receives m [] := by
  have hnone : ∀ x ∈ ([] : List QItem), x.size ≤ bufferSize := fun x hx => absurd hx List.not_mem_nil
  exact ⟨ReceiveSys.Inv.init hq' hm hnone, rfl, rfl⟩

end RelaySys
end Injector
end WlanxVms
