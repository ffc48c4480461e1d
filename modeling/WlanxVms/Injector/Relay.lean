import Mathlib.Algebra.Order.BigOperators.Group.List
import WlanxVms.Frame
import WlanxVms.Injector.LagTime
import WlanxVms.Injector.RelayParts

/-!
# From one virtual machine to the other (`ci_queues.c`)

Two injectors with a connection between them: the first one captures and sends, the second one receives
and injects. `sender` has the two threads of the first one and `receiver` those of the second one; its
`stream` is what the socket of the sender took and the receiver has not read yet. The two queues, the
two codecs and the stream together are to be one queue from `pcap_next_ex` to `pcap_inject`: `captured`
and `injected` record its ends.
-/

namespace WlanxVms
namespace Injector

/-- `bignum_timestamp` -/
def QItem.bignumTimestamp (x : QItem) : BignumSec := ⟨x.sec, x.nsec, x.positive⟩

/-- A call of `pcap_inject`, its result, and the clock that `profiling_update_lag_time` reads after it -/
structure Injection where
  frame : Stamped
  rc : Int
  now : Option Timespec

/-- `PCAP_ERROR` -/
def pcapError : Int := -1

/-- The packet that `pcap_next_ex` gives: its bytes, with what follows them in memory, and `caplen`. -/
structure Packet where
  data : Mem UInt8
  caplen : Nat

/-- The counters are `int`s. `aborted` is set when the second injector ended with a failed assertion of the profiling. -/
structure RelaySys where
  sender : SendSys
  receiver : ReceiveSys
  packetsCaptured : Int
  packetsSent : Int
  packetsReceived : Int
  packetsInjected : Int
  lagTime : LagTime
  aborted : Bool
  acks : Nat
  captured : List Stamped
  injected : List Injection

inductive RelayAct where
  | getTail
  | next (now : Option Timespec) (packet : Option Packet)
  | send (a : SendAct)
  | receive (a : ReceiveAct)
  | getHead
  | inject (rc : Int) (now : Option Timespec)
  | usedHead

/-- The static variables of `bignum_sec_profiling.c`: nothing calls `profiling_init_lag_time_sum`. -/
def lagTimeStatic : LagTime := ⟨⟨0, 0, false⟩, ⟨0, 0, false⟩, ⟨0, 0, false⟩⟩

/-- `bignum_sec_assigns` of the clock, or of zero -/
def captureTime : Option Timespec → UInt64 × UInt64
  | none => (0, 0)
  | some now => (now.tvSec, now.tvNsec)

namespace RelaySys

def init (sd : SendingData) (captureSendQ : AqType QItem) (lp : Lisa) (rd : ReceivingData)
    (receiveInjectQ : AqType QItem) : RelaySys :=
  { sender := SendSys.init sd captureSendQ lp, receiver := ReceiveSys.init rd receiveInjectQ [],
    packetsCaptured := 0, packetsSent := 0, packetsReceived := 0, packetsInjected := 0, lagTime := lagTimeStatic,
    aborted := false, acks := 0, captured := [], injected := [] }

/-- `repeat_capturing_function` from `pcap_next_ex` on, for the slot that `aq_get_tail` gave. An ack
leaves its time in the slot. -/
def next (s : RelaySys) (now : Option Timespec) (packet : Option Packet) : Option RelaySys :=
  match s.sender.fifo.prod, packet with
  | none, _ => none
  | some _, none => some s
  | some slot, some p =>
    let (sec, nsec) := captureTime now
    let s := { s with packetsCaptured := i32 (s.packetsCaptured + 1) }
    if (isAck p.caplen).value p.data then
      some { s with
        sender := { s.sender with
          fifo := s.sender.fifo.fill slot { s.sender.fifo.q.data slot with sec, nsec, positive := true } },
        acks := s.acks + 1 }
    else (s.sender.step (.capture sec nsec (p.data.read 0 p.caplen))).map fun sender =>
      { s with sender, captured := s.captured ++ [⟨sec, nsec, (p.data.read 0 p.caplen).take bufferSize⟩] }

/-- What the socket of the sender takes goes into the stream. The arguments of `q2log` are evaluated, so
`packets_sent` counts a frame twice. -/
def send (s : RelaySys) (a : SendAct) : Option RelaySys :=
  (s.sender.step a).map fun sender =>
    { s with sender,
             receiver := { s.receiver with
               stream := s.receiver.stream ++ sender.onSocket.drop s.sender.onSocket.length },
             packetsSent := i32 (s.packetsSent + 2 * a.released) }

def receive (s : RelaySys) (a : ReceiveAct) : Option RelaySys :=
  (s.receiver.step a).map fun receiver =>
    { s with receiver, packetsReceived := i32 (s.packetsReceived + a.published) }

/-- `repeat_injecting_function` between `aq_get_head` and `aq_used_head` -/
def inject (s : RelaySys) (rc : Int) (now : Option Timespec) : Option RelaySys :=
  match s.receiver.fifo.cons with
  | .holding slot =>
    let item := s.receiver.fifo.q.data slot
    (s.receiver.step .use).map fun receiver =>
      let s := { s with receiver, injected := s.injected ++ [⟨item.stamped, rc, now⟩] }
      if rc = pcapError then s
      else
        let s := { s with packetsInjected := i32 (s.packetsInjected + 1) }
        match profilingUpdateLagTime s.lagTime now item.bignumTimestamp with
        | some lagTime => { s with lagTime }
        | none => { s with aborted := true }
  | _ => none

/-- The threads of the second injector end with it. -/
def step (s : RelaySys) : RelayAct → Option RelaySys
  | .getTail => some { s with sender := { s.sender with fifo := s.sender.fifo.getTail } }
  | .next now packet => s.next now packet
  | .send a => if a.ofSendThread then s.send a else none
  | .receive a => if a.ofReceiveThread ∧ s.aborted = false then s.receive a else none
  | .getHead => if s.aborted then none else (s.receiver.step .getHead).map fun receiver => { s with receiver }
  | .inject rc now => if s.aborted then none else s.inject rc now
  | .usedHead => if s.aborted then none else (s.receiver.step .usedHead).map fun receiver => { s with receiver }

/-- The connection carries the bytes: the socket takes each message as a whole, no call of the sender
begins without a connection, and no `lisa_recv` fails. -/
def Carries (s : RelaySys) : RelayAct → Prop
  | .send a => SendSys.AllTaken s.sender a
  | .receive a => ReceiveSys.Delivers s.receiver a
  | _ => True

instance (s : RelaySys) : (a : RelayAct) → Decidable (Carries s a)
  | .send a => inferInstanceAs (Decidable (SendSys.AllTaken s.sender a))
  | .receive a => inferInstanceAs (Decidable (ReceiveSys.Delivers s.receiver a))
  | .getTail | .next .. | .getHead | .inject .. | .usedHead => .isTrue trivial

end RelaySys

/-! ### Every run -/

/-- The call of `profiling_update_lag_time` after an injection -/
def Injection.lagCall (i : Injection) : Option LagCall :=
  if i.rc = pcapError then none else i.now.map fun now => ⟨now, ⟨i.frame.sec, i.frame.nsec, true⟩⟩

theorem profilingUpdates_append (s : LagTime) (calls calls' : List LagCall) :
    profilingUpdates s (calls ++ calls') = (profilingUpdates s calls).bind fun s => profilingUpdates s calls' := by
  induction calls generalizing s with
  | nil => rfl
  | cons c calls ih =>
    rw [List.cons_append, profilingUpdates, profilingUpdates, Option.bind_assoc]
    exact congrArg _ (funext ih)

theorem map_stamped_of_same {xs ys : List QItem} (h : List.Forall₂ QItem.Same xs ys) :
    xs.map QItem.stamped = ys.map QItem.stamped := by
  induction h with
  | nil => rfl
  | cons hxy _ ih => simp only [List.map_cons, ih, QItem.stamped, hxy.sec, hxy.nsec, hxy.bytes]

theorem positive_of_same {xs ys : List QItem} (h : List.Forall₂ QItem.Same xs ys) {x : QItem} (hx : x ∈ xs) :
    x.positive = true := by
  induction h with
  | nil => cases hx
  | cons hxy _ ih =>
    rcases List.mem_cons.1 hx with rfl | hx
    · exact hxy.positive
    · exact ih hx

theorem ReceiveSys.Inv.positive {m slot : Nat} {items : List QItem} {s : ReceiveSys} (h : s.Inv m items)
    (hc : s.fifo.cons = .holding slot) : (s.fifo.q.data slot).positive = true := by
  obtain ⟨done, rest, -, -, -, hsame, -, -⟩ := h.place
  obtain ⟨xs, hx⟩ := h.fifo.cell (show s.fifo.consSlot = some slot by simp [FifoSys.consSlot, hc])
  have hmem : s.fifo.q.data slot ∈ s.fifo.published.drop s.fifo.released := by
    show _ ∈ s.fifo.pending
    rw [hx]; exact List.mem_cons_self
  exact positive_of_same hsame (List.mem_of_mem_drop hmem)

namespace RelaySys

def lagCalls (s : RelaySys) : List LagCall := s.injected.filterMap Injection.lagCall

/-- How often `pcap_inject` did not fail -/
def numInjected (s : RelaySys) : Nat := s.injected.countP fun i => i.rc ≠ pcapError

/-- The statistics are up to date, unless an assertion failed. -/
def Profiled (s : RelaySys) : Prop :=
  profilingUpdates lagTimeStatic s.lagCalls = if s.aborted then none else some s.lagTime

/-- `n` and `m` are the sizes of the two queues. -/
structure Inv (n m : Nat) (s : RelaySys) : Prop where
  taken : s.sender.Taken n
  captured : s.captured = s.sender.fifo.published.map QItem.stamped
  stream : ∃ more, s.sender.onSocket ++ more = wire s.sender.fifo.published ∧
    (s.receiver.ahead more).Inv m s.sender.fifo.published
  injected : s.injected.map Injection.frame = s.receiver.fifo.seen.map QItem.stamped
  packetsCaptured : s.packetsCaptured = i32 (s.captured.length + s.acks)
  packetsSent : s.packetsSent = i32 (2 * s.sender.fifo.released)
  packetsReceived : s.packetsReceived = i32 s.receiver.fifo.published.length
  packetsInjected : s.packetsInjected = i32 s.numInjected
  profiled : s.Profiled

variable {n m : Nat} {s t : RelaySys}

theorem Inv.init {sd : SendingData} {q q' : AqType QItem} {lp : Lisa} {rd : ReceivingData} (hq : q.Rep [])
    (hn : q.numItems = n) (hq' : q'.Rep []) (hm : q'.numItems = m) (hlp : lp.clsvr = .client) :
    (RelaySys.init sd q lp rd q').Inv n m := by
  refine ⟨⟨.init hq hn, hlp, rfl⟩, rfl, ⟨[], rfl, ?_⟩, rfl, rfl, rfl, rfl, rfl, rfl⟩
  have hnone : ∀ x ∈ ([] : List QItem), x.size ≤ bufferSize := fun x hx => absurd hx List.not_mem_nil
  exact ReceiveSys.Inv.init hq' hm hnone

theorem Inv.published (h : s.Inv n m) : s.receiver.fifo.Inv m ∧
    ∃ done, done <+: s.sender.fifo.published ∧ List.Forall₂ QItem.Same s.receiver.fifo.published done := by
  obtain ⟨more, -, hr⟩ := h.stream
  obtain ⟨done, rest, -, -, hitems, hsame, -, -⟩ := hr.place
  exact ⟨hr.fifo, done, hitems ▸ List.prefix_append .., hsame⟩

theorem Inv.of_sender (h : s.Inv n m) {sender : SendSys} (ht : sender.Taken n)
    (hpub : sender.fifo.published = s.sender.fifo.published) (hsock : sender.onSocket = s.sender.onSocket)
    (hrel : sender.fifo.released = s.sender.fifo.released) : ({ s with sender } : RelaySys).Inv n m := by
  refine ⟨ht, ?_, ?_, h.injected, h.packetsCaptured, ?_, h.packetsReceived, h.packetsInjected, h.profiled⟩
  · show s.captured = sender.fifo.published.map _
    rw [hpub]; exact h.captured
  · show ∃ more, sender.onSocket ++ more = wire sender.fifo.published ∧ (s.receiver.ahead more).Inv m sender.fifo.published
    rw [hpub, hsock]; exact h.stream
  · show s.packetsSent = i32 (2 * sender.fifo.released)
    rw [hrel]; exact h.packetsSent

theorem next_cases {now : Option Timespec} {packet : Option Packet} (hs : s.next now packet = some t) :
    t = s ∨
      (∃ p slot, packet = some p ∧ (isAck p.caplen).value p.data = true ∧ s.sender.fifo.prod = some slot ∧ t = { s with
        packetsCaptured := i32 (s.packetsCaptured + 1),
        sender := { s.sender with fifo := s.sender.fifo.fill slot { s.sender.fifo.q.data slot with
          sec := (captureTime now).1, nsec := (captureTime now).2, positive := true } },
        acks := s.acks + 1 }) ∨
      ∃ p sender, packet = some p ∧ (isAck p.caplen).value p.data = false ∧
        s.sender.step (.capture (captureTime now).1 (captureTime now).2 (p.data.read 0 p.caplen)) = some sender ∧
        t = { s with
          packetsCaptured := i32 (s.packetsCaptured + 1), sender,
          captured := s.captured ++
            [⟨(captureTime now).1, (captureTime now).2, (p.data.read 0 p.caplen).take bufferSize⟩] } := by
  unfold RelaySys.next at hs
  split at hs
  · cases hs
  · cases hs; exact .inl rfl
  · next slot p hp =>
    simp only at hs
    split at hs
    · next hack =>
      cases hs
      exact .inr (.inl ⟨p, slot, rfl, hack, hp, rfl⟩)
    · next hack =>
      obtain ⟨sender, hstep, rfl⟩ := Option.map_eq_some_iff.1 hs
      exact .inr (.inr ⟨p, sender, rfl, Bool.eq_false_of_not_eq_true hack, hstep, rfl⟩)

theorem inject_cases {rc : Int} {now : Option Timespec} (hs : s.inject rc now = some t) :
    ∃ slot receiver, s.receiver.fifo.cons = .holding slot ∧ s.receiver.step .use = some receiver ∧
      (rc = pcapError ∧ t = { s with
          receiver, injected := s.injected ++ [⟨(s.receiver.fifo.q.data slot).stamped, rc, now⟩] } ∨
        rc ≠ pcapError ∧ ∃ lagTime aborted,
          profilingUpdateLagTime s.lagTime now (s.receiver.fifo.q.data slot).bignumTimestamp =
            (if aborted then none else some lagTime) ∧
          t = { s with receiver, injected := s.injected ++ [⟨(s.receiver.fifo.q.data slot).stamped, rc, now⟩],
                       packetsInjected := i32 (s.packetsInjected + 1), lagTime, aborted := s.aborted || aborted }) := by
  unfold RelaySys.inject at hs
  cases hc : s.receiver.fifo.cons with
  | idle => simp only [hc] at hs; cases hs
  | used slot => simp only [hc] at hs; cases hs
  | holding slot =>
    simp only [hc] at hs
    obtain ⟨receiver, huse, rfl⟩ := Option.map_eq_some_iff.1 hs
    refine ⟨slot, receiver, rfl, huse, ?_⟩
    split
    · next hrc => exact .inl ⟨hrc, rfl⟩
    · next hrc =>
      refine .inr ⟨hrc, ?_⟩
      cases hlag : profilingUpdateLagTime s.lagTime now (s.receiver.fifo.q.data slot).bignumTimestamp with
      | some lagTime => exact ⟨lagTime, false, rfl, by rw [Bool.or_false]⟩
      | none => exact ⟨s.lagTime, true, rfl, by rw [Bool.or_true]⟩

theorem Inv.next (h : s.Inv n m) {now : Option Timespec} {packet : Option Packet} (hs : s.next now packet = some t) :
    t.Inv n m := by
  rcases next_cases hs with rfl | ⟨p, slot, -, -, hp, rfl⟩ | ⟨p, sender, -, -, hstep, rfl⟩
  · exact h
  · have hf := h.of_sender (h.taken.of_frame (h.taken.inv.fillTail hp { s.sender.fifo.q.data slot with
      sec := (captureTime now).1, nsec := (captureTime now).2, positive := true }) rfl rfl rfl rfl) rfl rfl rfl
    refine ⟨hf.taken, hf.captured, hf.stream, hf.injected, ?_, hf.packetsSent, hf.packetsReceived, hf.packetsInjected,
      hf.profiled⟩
    show i32 (s.packetsCaptured + 1) = i32 (s.captured.length + (s.acks + 1 : Nat))
    rw [h.packetsCaptured, i32_add, Int.natCast_succ, Int.add_assoc]
  · obtain ⟨ht, hsock, hrel, x, hpub, hstamped, hsize⟩ := h.taken.capture hstep
    obtain ⟨more, hmore, hr⟩ := h.stream
    refine ⟨ht, ?_, ⟨more ++ x.encode, ?_, ?_⟩, h.injected, ?_, ?_, h.packetsReceived, h.packetsInjected, h.profiled⟩
    · show s.captured ++ [_] = sender.fifo.published.map _
      rw [hpub, List.map_append, ← h.captured, List.map_singleton, hstamped]
    · show sender.onSocket ++ _ = wire sender.fifo.published
      rw [hpub, hsock, wire_append, ← List.append_assoc, hmore, wire_cons]
      exact congrArg _ (List.append_nil _).symm
    · show (s.receiver.ahead _).Inv m sender.fifo.published
      rw [hpub, ← ReceiveSys.ahead_append]
      exact hr.snoc hsize
    · show i32 (s.packetsCaptured + 1) = i32 ((s.captured ++ [_]).length + s.acks)
      rw [h.packetsCaptured, i32_add, List.length_append, List.length_singleton]
      congr 1
      omega
    · show s.packetsSent = i32 (2 * sender.fifo.released)
      rw [hrel]
      exact h.packetsSent

theorem Inv.send (h : s.Inv n m) {a : SendAct} (ha : a.ofSendThread = true) (hG : SendSys.AllTaken s.sender a)
    (hs : s.send a = some t) : t.Inv n m := by
  obtain ⟨sender, hstep, rfl⟩ := Option.map_eq_some_iff.1 hs
  have ht := h.taken.step hG hstep
  obtain ⟨hpub, hcasts, hrel⟩ := h.taken.inv.sendThread ha hstep
  obtain ⟨bs, hbs⟩ := h.taken.onSocket_prefix ht hcasts
  obtain ⟨more, hmore, hr⟩ := h.stream
  obtain ⟨left, hleft⟩ := ht.framesCounted.initial
  -- what the socket took is the first part of what was not on it
  have hsplit : more = bs ++ left := by
    have heq : s.sender.onSocket ++ more = s.sender.onSocket ++ (bs ++ left) := by
      rw [hmore, ← List.append_assoc, hbs, hleft, hpub]
    exact List.append_cancel_left heq
  refine ⟨ht, ?_, ⟨left, hleft, ?_⟩, h.injected, h.packetsCaptured, ?_, h.packetsReceived, h.packetsInjected, h.profiled⟩
  · show s.captured = sender.fifo.published.map _
    rw [hpub]; exact h.captured
  · show ((s.receiver.ahead (sender.onSocket.drop s.sender.onSocket.length)).ahead left).Inv m sender.fifo.published
    rw [← hbs, List.drop_left, ReceiveSys.ahead_append, ← hsplit, hpub]
    exact hr
  · show i32 (s.packetsSent + 2 * a.released) = i32 (2 * sender.fifo.released)
    rw [hrel, h.packetsSent, i32_add, Int.natCast_add, Int.mul_add]

theorem Inv.of_receiver (h : s.Inv n m) {a : ReceiveAct} {receiver : ReceiveSys} (hG : ReceiveSys.Delivers s.receiver a)
    (hs : s.receiver.step a = some receiver) (hseen : receiver.fifo.seen = s.receiver.fifo.seen)
    (hpub : receiver.fifo.published.length = s.receiver.fifo.published.length + a.published) :
    ({ s with receiver, packetsReceived := i32 (s.packetsReceived + a.published) } : RelaySys).Inv n m := by
  obtain ⟨more, hmore, hr⟩ := h.stream
  refine ⟨h.taken, h.captured, ⟨more, hmore, hr.step hG (ReceiveSys.step_ahead hs)⟩, ?_, h.packetsCaptured, h.packetsSent,
    ?_, h.packetsInjected, h.profiled⟩
  · show s.injected.map _ = receiver.fifo.seen.map _
    rw [hseen]; exact h.injected
  · show i32 (s.packetsReceived + a.published) = i32 receiver.fifo.published.length
    rw [hpub, h.packetsReceived, i32_add, Int.natCast_add]

theorem Inv.receive (h : s.Inv n m) {a : ReceiveAct} (ha : a.ofReceiveThread = true)
    (hG : ReceiveSys.Delivers s.receiver a) (hs : s.receive a = some t) : t.Inv n m := by
  obtain ⟨receiver, hstep, rfl⟩ := Option.map_eq_some_iff.1 hs
  obtain ⟨hseen, hpub⟩ := ReceiveSys.step_receiveThread ha hstep
  exact h.of_receiver hG hstep hseen hpub

theorem Inv.consumer (h : s.Inv n m) {a : ReceiveAct} (ha : a = .getHead ∨ a = .usedHead) {receiver : ReceiveSys}
    (hs : s.receiver.step a = some receiver) : ({ s with receiver } : RelaySys).Inv n m := by
  have hzero : a.published = 0 ∧ ReceiveSys.Delivers s.receiver a := by
    rcases ha with rfl | rfl <;> exact ⟨rfl, trivial⟩
  obtain ⟨hseen, hpub⟩ := ReceiveSys.step_consumer ha hs
  have ht := h.of_receiver hzero.2 hs hseen (by rw [hpub, hzero.1]; rfl)
  have hsame : i32 (s.packetsReceived + a.published) = s.packetsReceived := by
    rw [hzero.1, h.packetsReceived, i32_add, Int.natCast_zero, Int.add_zero]
  rw [hsame] at ht
  exact ht

theorem Profiled.stops (h : s.Profiled) : s.aborted = (profilingUpdates lagTimeStatic s.lagCalls).isNone := by
  rw [h]
  cases s.aborted <;> rfl

theorem lagCalls_append (s : RelaySys) (i : Injection) (receiver : ReceiveSys) :
    ({ s with receiver, injected := s.injected ++ [i] } : RelaySys).lagCalls = s.lagCalls ++ i.lagCall.toList := by
  show (s.injected ++ [i]).filterMap Injection.lagCall = _
  rw [List.filterMap_append, lagCalls]
  cases hi : i.lagCall <;> simp [hi]

theorem Profiled.inject (h : s.Profiled) (hrun : s.aborted = false)
    (hpos : ∀ slot, s.receiver.fifo.cons = .holding slot → (s.receiver.fifo.q.data slot).positive = true) {rc : Int}
    {now : Option Timespec} (hs : s.inject rc now = some t) : t.Profiled := by
  obtain ⟨slot, receiver, hc, -, hcases⟩ := inject_cases hs
  let i : Injection := ⟨(s.receiver.fifo.q.data slot).stamped, rc, now⟩
  have hcalls := lagCalls_append s i receiver
  have hnow : profilingUpdates lagTimeStatic s.lagCalls = some s.lagTime := by
    rw [h, hrun]; rfl
  rcases hcases with ⟨hrc, rfl⟩ | ⟨hrc, lagTime, aborted, hlag, rfl⟩
  · show profilingUpdates lagTimeStatic (RelaySys.lagCalls { s with receiver, injected := _ }) = _
    rw [hcalls, Injection.lagCall, if_pos hrc, Option.toList_none, List.append_nil]
    exact h
  · show profilingUpdates lagTimeStatic (RelaySys.lagCalls { s with receiver, injected := _ }) =
      if s.aborted || aborted then none else some lagTime
    rw [hcalls, profilingUpdates_append, hnow, Injection.lagCall, if_neg hrc, hrun, Bool.false_or, ← hlag]
    cases now with
    | none => rfl
    | some now =>
      have hitem : (s.receiver.fifo.q.data slot).bignumTimestamp =
          ⟨(s.receiver.fifo.q.data slot).sec, (s.receiver.fifo.q.data slot).nsec, true⟩ := by
        rw [QItem.bignumTimestamp, hpos slot hc]
      rw [hitem]
      exact Option.bind_fun_some _

theorem Inv.inject (h : s.Inv n m) (hrun : s.aborted = false) {rc : Int} {now : Option Timespec}
    (hs : s.inject rc now = some t) : t.Inv n m := by
  obtain ⟨slot, receiver, hc, huse, hcases⟩ := inject_cases hs
  obtain ⟨more, hmore, hr⟩ := h.stream
  have hprofiled := h.profiled.inject hrun (fun slot hc => hr.positive hc) hs
  have hr' := hr.step (show ReceiveSys.Delivers _ .use from trivial) (ReceiveSys.step_ahead huse)
  obtain ⟨hseen, hpub⟩ := ReceiveSys.step_use hc huse
  let i : Injection := ⟨(s.receiver.fifo.q.data slot).stamped, rc, now⟩
  have hinjected : (s.injected ++ [i]).map Injection.frame = receiver.fifo.seen.map QItem.stamped := by
    rw [hseen, List.map_append, List.map_append, h.injected]; rfl
  have hreceived : s.packetsReceived = i32 receiver.fifo.published.length := by rw [hpub, h.packetsReceived]
  rcases hcases with ⟨hrc, rfl⟩ | ⟨hrc, lagTime, aborted, -, rfl⟩
  · refine ⟨h.taken, h.captured, ⟨more, hmore, hr'⟩, hinjected, h.packetsCaptured, h.packetsSent, hreceived, ?_, hprofiled⟩
    show s.packetsInjected = i32 ((s.injected ++ [i]).countP _ : Nat)
    rw [List.countP_append, h.packetsInjected]
    simp [i, hrc, RelaySys.numInjected]
  · refine ⟨h.taken, h.captured, ⟨more, hmore, hr'⟩, hinjected, h.packetsCaptured, h.packetsSent, hreceived, ?_, hprofiled⟩
    show i32 (s.packetsInjected + 1) = i32 ((s.injected ++ [i]).countP _ : Nat)
    rw [List.countP_append, h.packetsInjected, i32_add]
    simp [i, hrc, RelaySys.numInjected]

theorem Inv.step (h : s.Inv n m) {a : RelayAct} (hG : Carries s a) (hs : s.step a = some t) : t.Inv n m := by
  cases a with
  | getTail =>
    cases hs
    exact h.of_sender (h.taken.of_frame h.taken.inv.captureTail rfl rfl rfl rfl) rfl rfl rfl
  | next now packet => exact h.next hs
  | send a =>
    obtain ⟨ha, hs⟩ := Option.ite_none_right_eq_some.1 hs
    exact h.send ha hG hs
  | receive a =>
    obtain ⟨⟨ha, -⟩, hs⟩ := Option.ite_none_right_eq_some.1 hs
    exact h.receive ha hG hs
  | getHead =>
    obtain ⟨-, hs⟩ := Option.ite_none_left_eq_some.1 hs
    obtain ⟨receiver, hstep, rfl⟩ := Option.map_eq_some_iff.1 hs
    exact h.consumer (.inl rfl) hstep
  | inject rc now =>
    obtain ⟨hrun, hs⟩ := Option.ite_none_left_eq_some.1 hs
    exact h.inject (Bool.eq_false_of_not_eq_true hrun) hs
  | usedHead =>
    obtain ⟨-, hs⟩ := Option.ite_none_left_eq_some.1 hs
    obtain ⟨receiver, hstep, rfl⟩ := Option.map_eq_some_iff.1 hs
    exact h.consumer (.inr rfl) hstep

theorem Inv.path {acts : List RelayAct} (hp : Path RelaySys.step Carries s acts t) (h : s.Inv n m) : t.Inv n m :=
  hp.invariant (RelaySys.Inv n m) (fun _ _ _ hi hG hs => hi.step hG hs) h

/-- What was injected is the first part of what was captured. -/
theorem Inv.injected_initial (h : s.Inv n m) : s.injected.map Injection.frame <+: s.captured := by
  obtain ⟨hf, done, hdone, hsame⟩ := h.published
  rw [h.injected, h.captured, hf.seen, List.map_take, map_stamped_of_same hsame]
  exact (List.take_prefix ..).trans (hdone.map _)

theorem counters_le {s : SendSys} (h : s.Inv n) {x : QItem} {xs : List QItem} (hx : s.fifo.pending = x :: xs) :
    s.sd.lenProcessed + s.sd.pktProcessed ≤ 20 + x.size := by
  by_cases hpc : s.pc = .used
  · have hlast := h.flatten_stage.2.2 hpc x (by rw [hx]; rfl)
    omega
  · have hlen : s.pc.lenDone ≤ 20 := by cases s.pc <;> decide
    rw [h.lenProcessed, h.pktProcessed hpc]
    omega

/-- A frame is received only when all of it was sent. -/
theorem Inv.received_le (h : s.Inv n m) : s.receiver.fifo.published.length ≤ s.sender.fifo.released + 1 := by
  obtain ⟨more, hmore, hr⟩ := h.stream
  obtain ⟨done, rest, L, B, hitems, hsame, hread, -⟩ := hr.place
  have hcounted := h.taken.framesCounted
  have hdlen : s.receiver.fifo.published.length = done.length := hsame.length_eq
  rw [hdlen]
  by_contra hlt
  -- two frames that are not released would have been received
  have hpending : s.sender.fifo.pending = (done ++ rest).drop s.sender.fifo.released := by
    rw [FifoSys.pending, hitems]
  have hdrop : (done ++ rest).drop s.sender.fifo.released = done.drop s.sender.fifo.released ++ rest :=
    List.drop_append_of_le_length (by omega)
  obtain ⟨y, ys, hy⟩ := List.exists_cons_of_ne_nil (show done.drop s.sender.fifo.released ≠ [] by
    rw [ne_eq, List.drop_eq_nil_iff]; omega)
  obtain ⟨z, zs, rfl⟩ := List.exists_cons_of_ne_nil (show ys ≠ [] by
    rintro rfl
    have := congrArg List.length hy
    rw [List.length_drop, List.length_singleton] at this
    omega)
  have hle := counters_le h.taken.inv (hpending.trans (hdrop.trans (congrArg (· ++ rest) hy)))
  have hdone : done = done.take s.sender.fifo.released ++ y :: z :: zs := by
    rw [← hy, List.take_append_drop]
  have htake : s.sender.fifo.published.take s.sender.fifo.released = done.take s.sender.fifo.released := by
    rw [hitems, List.take_append_of_le_length (by omega)]
  have hsocket := congrArg List.length hcounted.onSocket
  have hstream := congrArg List.length hread.stream
  have hwire := congrArg List.length hmore
  have hwdone := congrArg (fun xs => (wire xs).length) hdone
  have hy20 := le_length_wire y (z :: zs)
  have hz20 := le_length_wire z zs
  simp only [wire_append, wire_cons, List.length_append, QItem.length_encode] at hwdone hy20 hz20
  rw [htake, List.length_append, List.length_take] at hsocket
  rw [hitems, wire_append, List.length_append, List.length_append] at hwire
  rw [List.length_drop] at hstream
  have hmoreLe : more.length ≤ (s.receiver.ahead more).stream.length := by
    show _ ≤ (s.receiver.stream ++ more).length
    rw [List.length_append]
    exact Nat.le_add_left ..
  omega

/-- The two injectors are one queue: what is injected is what was captured, in this order, without a
gap and nothing twice, each frame with its capture time. The rest is counted by the statistics, as `int`s and of
which `packets_sent` counts twice: what waits in the two queues is at most their sizes. The second injector ends only
with an assertion of its profiling. -/
structure OneQueue (n m : Nat) (s : RelaySys) : Prop where
  running : s.sender.pc ≠ .aborted ∧ s.receiver.pc ≠ .aborted ∧ s.receiver.pc ≠ .outOfBounds
  stops : s.aborted = (profilingUpdates lagTimeStatic s.lagCalls).isNone
  inOrder : s.injected.map Injection.frame <+: s.captured
  packetsCaptured : s.packetsCaptured = i32 (s.captured.length + s.acks)
  between : ∃ sent received : Nat, s.packetsSent = i32 (2 * sent) ∧ s.packetsReceived = i32 received ∧
    sent ≤ s.captured.length ∧ s.captured.length ≤ sent + n ∧ received ≤ sent + 1 ∧
    s.injected.length ≤ received ∧ received ≤ s.injected.length + m
  packetsInjected : s.packetsInjected = i32 s.numInjected

theorem Inv.oneQueue (h : s.Inv n m) : s.OneQueue n m := by
  obtain ⟨hf, done, hdone, hsame⟩ := h.published
  obtain ⟨more, hmore, hr⟩ := h.stream
  have hlen : s.captured.length = s.sender.fifo.published.length := by rw [h.captured, List.length_map]
  have hinj : s.injected.length = s.receiver.fifo.numSeen := by
    have := congrArg List.length h.injected
    rw [List.length_map, List.length_map, hf.seen, List.length_take] at this
    exact this.trans (Nat.min_eq_left hf.numSeen_le)
  have hsf := h.taken.inv.fifo
  have hpend : s.sender.fifo.pending.length ≤ n := hsf.num ▸ hsf.rep.len_le
  have hpend' : s.receiver.fifo.pending.length ≤ m := hf.num ▸ hf.rep.len_le
  rw [FifoSys.pending, List.length_drop] at hpend hpend'
  have hseen : s.receiver.fifo.released ≤ s.receiver.fifo.numSeen := by
    unfold FifoSys.numSeen
    split <;> omega
  refine ⟨?_, ?_, h.injected_initial, h.packetsCaptured,
    ⟨s.sender.fifo.released, s.receiver.fifo.published.length, h.packetsSent, h.packetsReceived, ?_, ?_, h.received_le, ?_, ?_⟩,
    h.packetsInjected⟩
  · obtain ⟨_, _, _, _, -, -, -, hat⟩ := hr.place
    exact ⟨h.taken.inv.running, hat.running⟩
  · exact h.profiled.stops
  · rw [hlen]; exact hsf.released_le
  · rw [hlen]; omega
  · rw [hinj]; exact hf.numSeen_le
  · rw [hinj]; omega

end RelaySys

/-- Whatever the captures are, however the four threads interleave and however the stream is cut, the two
injectors are one queue as long as the connection carries the bytes. -/
theorem relay_oneQueue (n m itemSize : Nat) (block block' : Option (Mem QItem)) (q q' : AqType QItem)
    (hn : 1 ≤ n ∧ n ≤ 65535) (hm : 1 ≤ m ∧ m ≤ 65535) (hq : aqNew block itemSize n = some q)
    (hq' : aqNew block' itemSize m = some q') (sd : SendingData) (lp : Lisa) (hlp : lp.clsvr = .client)
    (rd : ReceivingData) (acts : List RelayAct) (s : RelaySys)
    (h : Path RelaySys.step RelaySys.Carries (RelaySys.init sd q lp rd q') acts s) : s.OneQueue n m := by
  obtain ⟨hrep, hnum⟩ := AqType.Rep.new hn.1 hn.2 hq
  obtain ⟨hrep', hnum'⟩ := AqType.Rep.new hm.1 hm.2 hq'
  exact (RelaySys.Inv.path h (.init hrep hnum hrep' hnum' hlp)).oneQueue

/-- A frame of one byte, captured at 5 s and injected at 8 s -/
def oneFrame : List RelayAct :=
  [.getTail, .next (some ⟨5, 0⟩) (some ⟨Mem.fill 0, 1⟩), .send .fetch, .send (.castLen [[.sends 4]]),
    .send (.castTimestamp [[.sends 16]]), .send (.castPayload [[.sends 1]]), .send .usedHead,
    .receive (.recvLen .connected 4), .receive (.recvTimestamp 16), .receive .getTail, .receive (.recvPayload 1),
    .receive .putTail, .getHead, .inject 1 (some ⟨8, 0⟩), .usedHead]

theorem relay_oneQueue_oneFrame : ∃ q s,
    aqNew (some (Mem.fill ⟨0, 0, 0, false, Mem.fill 0⟩)) 2536 queueSize = some q ∧
    Path RelaySys.step RelaySys.Carries
      (RelaySys.init ⟨Mem.fill 0, Mem.fill 0, 0, 0, false, none⟩ q
        ⟨3, 0, Mem.fill 0, 0, 0, .connected, .connected, .tcp, .client, false⟩ ⟨Mem.fill 0, Mem.fill 0, 0, 0, 0⟩ q)
      oneFrame s ∧
    s.injected.map Injection.frame = [⟨5, 0, [0]⟩] ∧ s.OneQueue queueSize queueSize := by
  refine ⟨_, _, rfl, .of_run (by decide +kernel), by decide +kernel, ?_⟩
  exact relay_oneQueue queueSize queueSize 2536 (some (Mem.fill ⟨0, 0, 0, false, Mem.fill 0⟩))
    (some (Mem.fill ⟨0, 0, 0, false, Mem.fill 0⟩)) _ _ (by decide) (by decide) rfl rfl _ _ rfl _ _ _
    (.of_run (by decide +kernel))

/-! ### The statistics of the second injector -/

theorem tdiv_between {ds : List Int} {lo hi : Int} (hne : ds ≠ []) (h : ∀ d ∈ ds, lo ≤ d ∧ d ≤ hi) :
    lo ≤ ds.sum.tdiv ds.length ∧ ds.sum.tdiv ds.length ≤ hi := by
  have hlo := List.card_nsmul_le_sum ds lo fun d hd => (h d hd).1
  have hhi := List.sum_le_card_nsmul ds hi fun d hd => (h d hd).2
  rw [nsmul_eq_mul, Int.mul_comm] at hlo hhi
  have hpos : (0 : Int) < ds.length := by exact_mod_cast List.length_pos_iff.2 hne
  rcases Int.le_total 0 ds.sum with hsum | hsum
  · rw [Int.tdiv_eq_ediv_of_nonneg hsum]
    exact ⟨Int.le_ediv_of_mul_le hpos hlo, Int.ediv_le_of_le_mul hpos hhi⟩
  · obtain ⟨k, hk⟩ := Int.eq_ofNat_of_zero_le (Int.neg_nonneg_of_nonpos hsum)
    have hdiv : ds.sum.tdiv ds.length = -(-ds.sum / ds.length) := by
      rw [← Int.tdiv_eq_ediv_of_nonneg (Int.neg_nonneg_of_nonpos hsum), Int.neg_tdiv, Int.neg_neg]
    have hle : -ds.sum / ds.length ≤ -lo := Int.ediv_le_of_le_mul hpos (by rw [Int.neg_mul]; omega)
    have hge : -hi ≤ -ds.sum / ds.length := Int.le_ediv_of_mul_le hpos (by rw [Int.neg_mul]; omega)
    rw [hdiv]
    omega

/-- The statistics are those of the lags of the frames injected, each against its own capture time. What is shown as the
average is their sum over `packets_injected`, which also counts the injections after which the clock could not be read;
without these it is the mean. -/
structure RelaySys.LagsShown (s : RelaySys) : Prop where
  times : List.Sublist (s.lagCalls.map fun c => (c.a.sec, c.a.nsec)) (s.captured.map fun f => (f.sec, f.nsec))
  sum : s.lagTime.lagTimeSum.value = (lags s.lagCalls).sum
  min : s.lagTime.lagTimeMin.value ∈ lags s.lagCalls ∧ ∀ d ∈ lags s.lagCalls, s.lagTime.lagTimeMin.value ≤ d
  max : s.lagTime.lagTimeMax.value ∈ lags s.lagCalls ∧ ∀ d ∈ lags s.lagCalls, d ≤ s.lagTime.lagTimeMax.value
  avg : ∀ avg : BignumSec, s.numInjected < 2 ^ 32 → (lags s.lagCalls).sum ≠ 0 →
    ∃ r, profilingGetLagTimeAvg s.lagTime avg (UInt32.ofNat (u32 s.packetsInjected)) = some r ∧
      r.value = (lags s.lagCalls).sum.tdiv s.numInjected ∧
      ((∀ i ∈ s.injected, i.rc ≠ pcapError → i.now.isSome = true) →
        s.lagTime.lagTimeMin.value ≤ r.value ∧ r.value ≤ s.lagTime.lagTimeMax.value)

instance (c : LagCall) : Decidable c.Valid :=
  decidable_of_iff (c.nowTs.tvNsec.toNat < 1000000000 ∧ c.a.nsec.toNat < 1000000000 ∧ c.a.positive = true)
    ⟨fun h => ⟨h.1, h.2.1, h.2.2⟩, fun h => ⟨h.now, h.nsec, h.positive⟩⟩

theorem lagTimeStatic_inv : lagTimeStatic.Inv [] false := by
  have hzero : lagTimeStatic.lagTimeSum.value = 0 := BignumSec.isZero_iff.1 rfl
  exact ⟨hzero, by decide, by decide, .inl ⟨rfl, hzero⟩, .inl ⟨rfl, hzero⟩⟩

theorem time_lagCall (i : Injection) :
    List.Sublist (i.lagCall.toList.map fun c => (c.a.sec, c.a.nsec)) [(i.frame.sec, i.frame.nsec)] := by
  unfold Injection.lagCall
  split
  · exact List.nil_sublist _
  · cases i.now with
    | none => exact List.nil_sublist _
    | some now => exact List.Sublist.refl _

theorem times_lagCalls (is : List Injection) :
    List.Sublist ((is.filterMap Injection.lagCall).map fun c => (c.a.sec, c.a.nsec))
      ((is.map Injection.frame).map fun f => (f.sec, f.nsec)) := by
  induction is with
  | nil => exact List.Sublist.refl _
  | cons i is ih =>
    have hcons : (i :: is).filterMap Injection.lagCall = i.lagCall.toList ++ is.filterMap Injection.lagCall := by
      cases hi : i.lagCall <;> simp [hi]
    rw [hcons, List.map_append]
    exact (time_lagCall i).append ih

theorem RelaySys.length_lagCalls_le (s : RelaySys) : s.lagCalls.length ≤ s.numInjected := by
  rw [RelaySys.lagCalls, List.length_filterMap_eq_countP, RelaySys.numInjected]
  refine List.countP_mono_left fun i _ hi => decide_eq_true fun hrc => ?_
  rw [Injection.lagCall, if_pos hrc] at hi
  cases hi

theorem RelaySys.length_lagCalls {s : RelaySys} (h : ∀ i ∈ s.injected, i.rc ≠ pcapError → i.now.isSome = true) :
    s.lagCalls.length = s.numInjected := by
  rw [RelaySys.lagCalls, List.length_filterMap_eq_countP, RelaySys.numInjected]
  refine List.countP_congr fun i hi => ?_
  rw [decide_eq_true_iff, Injection.lagCall]
  split
  · next hrc => exact ⟨fun hs => (Bool.false_ne_true hs).elim, fun hne => absurd hrc hne⟩
  · next hrc => exact ⟨fun _ => hrc, fun _ => by rw [Option.isSome_map]; exact h i hi hrc⟩

/-- The second injector ends when a lag is zero or brings a carried total back to zero. Until then the sum, the minimum and
the maximum are exact. -/
theorem RelaySys.Inv.lagsShown {n m : Nat} {s : RelaySys} (h : s.Inv n m) (hne : s.lagCalls ≠ [])
    (hvalid : ∀ c ∈ s.lagCalls, c.Valid) (hfits : ∀ k, |((lags s.lagCalls).take k).sum| < 2 ^ 64 * 1000000000) :
    (s.aborted = true ↔ ¬Uncancelled 0 false (lags s.lagCalls)) ∧ (s.aborted = false → s.LagsShown) := by
  have hlags : lags s.lagCalls ≠ [] := by simpa [lags] using hne
  have hprofiled := h.profiled
  rcases lagTimeStatic_inv.updates hvalid (by simpa using hfits) with ⟨hnone, hcancel⟩ | ⟨u, full, hu, hun, hinv⟩
  · have hstop : s.aborted = true := by
      cases hrun : s.aborted with
      | true => rfl
      | false => rw [RelaySys.Profiled, hnone, hrun] at hprofiled; cases hprofiled
    exact ⟨⟨fun _ => hcancel, fun _ => hstop⟩, fun hrun => absurd hstop (Bool.eq_false_iff.1 hrun)⟩
  · have hrun : s.aborted = false ∧ s.lagTime = u := by
      rw [RelaySys.Profiled, hu] at hprofiled
      cases hrun : s.aborted with
      | true => rw [hrun] at hprofiled; cases hprofiled
      | false => rw [hrun] at hprofiled; exact ⟨rfl, (Option.some.inj hprofiled).symm⟩
    obtain ⟨hrun, rfl⟩ := hrun
    refine ⟨⟨fun hstop => absurd hstop (Bool.eq_false_iff.1 hrun), fun hcancel => absurd hun hcancel⟩, fun _ => ?_⟩
    rw [List.nil_append] at hinv
    have hmin := hinv.min.value hlags
    have hmax := hinv.max.value hlags
    have hmax' : ∀ d ∈ lags s.lagCalls, d ≤ s.lagTime.lagTimeMax.value := fun d hd => by
      have := hmax.2 d hd
      omega
    have htotal : |(lags s.lagCalls).sum| < 2 ^ 64 * 1000000000 := by
      have := hfits (lags s.lagCalls).length
      rwa [List.take_length] at this
    refine ⟨(times_lagCalls s.injected).trans (h.injected_initial.sublist.map _), hinv.sum, hmin, ⟨hmax.1, hmax'⟩, ?_⟩
    intro avg hcount hsum
    have hnum : (UInt32.ofNat (u32 s.packetsInjected)).toNat = s.numInjected := by
      rw [h.packetsInjected, u32_i32, u32_of_lt hcount, UInt32.toNat_ofNat_of_lt' hcount]
    have hne0 : UInt32.ofNat (u32 s.packetsInjected) ≠ 0 := by
      intro h0
      have hle := s.length_lagCalls_le
      rw [← hnum, h0] at hle
      exact hne (List.length_eq_zero_iff.1 (Nat.le_zero.1 hle))
    obtain ⟨r, hr, hvalue, -⟩ := hinv.avg hsum htotal hne0 avg
    rw [hnum] at hvalue
    refine ⟨r, hr, hvalue, fun hread => ?_⟩
    have hlen : (lags s.lagCalls).length = s.numInjected := (List.length_map _).trans (RelaySys.length_lagCalls hread)
    have hbetween := tdiv_between hlags fun d hd => ⟨hmin.2 d hd, hmax' d hd⟩
    rw [hlen, ← hvalue] at hbetween
    exact hbetween

theorem relay_lagsShown (n m itemSize : Nat) (block block' : Option (Mem QItem)) (q q' : AqType QItem)
    (hn : 1 ≤ n ∧ n ≤ 65535) (hm : 1 ≤ m ∧ m ≤ 65535) (hq : aqNew block itemSize n = some q)
    (hq' : aqNew block' itemSize m = some q') (sd : SendingData) (lp : Lisa) (hlp : lp.clsvr = .client)
    (rd : ReceivingData) (acts : List RelayAct) (s : RelaySys)
    (h : Path RelaySys.step RelaySys.Carries (RelaySys.init sd q lp rd q') acts s) (hne : s.lagCalls ≠ [])
    (hvalid : ∀ c ∈ s.lagCalls, c.Valid) (hfits : ∀ k, |((lags s.lagCalls).take k).sum| < 2 ^ 64 * 1000000000) :
    (s.aborted = true ↔ ¬Uncancelled 0 false (lags s.lagCalls)) ∧ (s.aborted = false → s.LagsShown) := by
  obtain ⟨hrep, hnum⟩ := AqType.Rep.new hn.1 hn.2 hq
  obtain ⟨hrep', hnum'⟩ := AqType.Rep.new hm.1 hm.2 hq'
  exact (RelaySys.Inv.path h (.init hrep hnum hrep' hnum' hlp)).lagsShown hne hvalid hfits

/-- The frame that took 3 s -/
theorem relay_lagsShown_oneFrame : ∃ q s,
    aqNew (some (Mem.fill ⟨0, 0, 0, false, Mem.fill 0⟩)) 2536 queueSize = some q ∧
    Path RelaySys.step RelaySys.Carries
      (RelaySys.init ⟨Mem.fill 0, Mem.fill 0, 0, 0, false, none⟩ q
        ⟨3, 0, Mem.fill 0, 0, 0, .connected, .connected, .tcp, .client, false⟩ ⟨Mem.fill 0, Mem.fill 0, 0, 0, 0⟩ q)
      oneFrame s ∧
    lags s.lagCalls = [3000000000] ∧ s.LagsShown := by
  refine ⟨_, _, rfl, .of_run (by decide +kernel), by decide +kernel, ?_⟩
  refine (relay_lagsShown queueSize queueSize 2536 (some (Mem.fill ⟨0, 0, 0, false, Mem.fill 0⟩))
    (some (Mem.fill ⟨0, 0, 0, false, Mem.fill 0⟩)) _ _ (by decide) (by decide) rfl rfl _ _ rfl _ _ _
    (.of_run (by decide +kernel)) ?_ ?_ ?_).2 (by decide +kernel)
  · exact List.ne_nil_of_length_pos (by decide +kernel)
  · decide +kernel
  · intro k
    rw [show lags _ = [3000000000] by decide +kernel]
    rcases k with _ | k
    · decide
    · rw [List.take_of_length_le (by simp)]
      decide

end Injector
end WlanxVms
