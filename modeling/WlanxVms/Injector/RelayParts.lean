import WlanxVms.Injector.Receiving
import WlanxVms.Injector.Sending

/-!
# The sender and the receiver next to each other (`ci_queues.c`)

What the steps of the sender leave on its socket, and why bytes that are still on the way do not change
what the receiver does.
-/

namespace WlanxVms
namespace Injector

/-- A frame with its capture time -/
structure Stamped where
  sec : UInt64
  nsec : UInt64
  bytes : List UInt8
deriving DecidableEq

def QItem.stamped (x : QItem) : Stamped := ⟨x.sec, x.nsec, x.bytes⟩

/-- The actions of the send thread, and what the receive thread does to its lisa -/
def SendAct.ofSendThread : SendAct → Bool
  | .captureTail | .capture .. => false
  | _ => true

def ReceiveAct.ofReceiveThread : ReceiveAct → Bool
  | .getHead | .use | .usedHead => false
  | _ => true

/-- How often the action calls `aq_used_head` -/
def SendAct.released : SendAct → Nat
  | .usedHead => 1
  | _ => 0

/-- How often the action calls `aq_put_tail` -/
def ReceiveAct.published : ReceiveAct → Nat
  | .putTail => 1
  | _ => 0

/-! ### The sender -/

namespace SendSys
variable {n slot : Nat} {s t : SendSys}

theorem Inv.fillTail (h : s.Inv n) (hp : s.fifo.prod = some slot) (x : QItem) :
    ({ s with fifo := s.fifo.fill slot x } : SendSys).Inv n := by
  refine ⟨h.fifo.fill hp x, h.small, h.running, h.idle, h.busy, h.lenProcessed, h.pktProcessed, fun hpc c hc => ?_,
    h.casts⟩
  obtain ⟨c', hitem, hcons⟩ := h.busy (by rw [hpc]; decide)
  have hc' : c' = c := Option.some.inj (hitem.symm.trans hc)
  have hne := h.fifo.slots_ne hp (show s.fifo.consSlot = some c' by simp [FifoSys.consSlot, hcons])
  show _ = (s.fifo.q.data.set slot x c).size
  rw [Mem.set_of_ne _ _ (by rw [← hc']; exact hne.symm)]
  exact h.pktUsed hpc c hc

theorem published_getHead (f : FifoSys QItem) : f.getHead.published = f.published ∧ f.getHead.released = f.released := by
  unfold FifoSys.getHead
  split <;> exact ⟨rfl, rfl⟩

theorem fifo_fetch (s : SendSys) : s.fetch.fifo = s.fifo ∨ s.fetch.fifo = s.fifo.getHead := by
  unfold SendSys.fetch
  split
  · exact .inl rfl
  · by_cases hst : LisaState.connected.code ≤ s.lp.state.code
    · simp only [if_pos hst]
      split <;> exact .inr rfl
    · simp only [if_neg hst]
      split <;> exact .inl rfl

/-- What a step of the send thread leaves as it is: only the capture thread publishes, no message is
taken back, and a slot is released by `aq_used_head`. -/
theorem Inv.sendThread {a : SendAct} (h : s.Inv n) (ha : a.ofSendThread = true) (hs : s.step a = some t) :
    t.fifo.published = s.fifo.published ∧ s.casts <+: t.casts ∧
      t.fifo.released = s.fifo.released + a.released := by
  have hcasts : ∀ {msg outs}, Casts s t msg outs → a.released = 0 → t.fifo.published = s.fifo.published ∧
      s.casts <+: t.casts ∧ t.fifo.released = s.fifo.released + a.released := by
    intro msg outs hc h0
    rw [hc.fifo, hc.casts, h0]
    exact ⟨rfl, List.prefix_append .., rfl⟩
  cases a with
  | captureTail => cases ha
  | capture sec nsec data => cases ha
  | fetch =>
    obtain ⟨-, hs⟩ := Option.ite_none_right_eq_some.1 hs
    cases hs
    obtain ⟨hpub, hrel⟩ := published_getHead s.fifo
    have hcasts : s.fetch.casts = s.casts := (fetch_frame s).2.1
    rcases fifo_fetch s with hf | hf
    · exact ⟨by rw [hf], hcasts ▸ List.prefix_rfl, by rw [hf]; rfl⟩
    · exact ⟨by rw [hf, hpub], hcasts ▸ List.prefix_rfl, by rw [hf, hrel]; rfl⟩
  | castLen outs =>
    obtain ⟨hpc, hs⟩ := Option.ite_none_right_eq_some.1 hs
    obtain ⟨-, slot, -, hc⟩ := h.castLen hpc hs
    exact hcasts hc rfl
  | castTimestamp outs =>
    obtain ⟨hpc, hs⟩ := Option.ite_none_right_eq_some.1 hs
    obtain ⟨-, slot, -, hc⟩ := h.castTimestamp hpc hs
    exact hcasts hc rfl
  | castPayload outs =>
    obtain ⟨hpc, hs⟩ := Option.ite_none_right_eq_some.1 hs
    obtain ⟨-, slot, -, hc⟩ := h.castPayload hpc hs
    exact hcasts hc rfl
  | usedHead =>
    obtain ⟨hpc, hs⟩ := Option.ite_none_right_eq_some.1 hs
    obtain ⟨slot, xs, hitem, -, -, -⟩ := h.head (by simp [hpc])
    cases onItem_eq_some hitem hs
    exact ⟨rfl, List.prefix_rfl, rfl⟩
  | receiveThread state clientState clientFd =>
    cases hs
    exact ⟨rfl, List.prefix_rfl, rfl⟩

theorem stamped_capture (x : QItem) (sec nsec : UInt64) (data : List UInt8) :
    (x.capture sec nsec data).stamped = ⟨sec, nsec, data.take bufferSize⟩ := by
  have hsize : (x.capture sec nsec data).size = (data.take bufferSize).length := by
    show (if data.length < bufferSize then data.length else bufferSize) = _
    rw [List.length_take]
    split <;> omega
  have htake : data.take (x.capture sec nsec data).size = data.take bufferSize := by
    rw [hsize, List.length_take, ← List.take_eq_take_min]
  have hbytes : (x.capture sec nsec data).bytes = data.take bufferSize := by
    show (x.buffer.write 0 (data.take (x.capture sec nsec data).size)).read 0 (x.capture sec nsec data).size = _
    rw [htake, hsize]
    exact Mem.read_write_self ..
  rw [QItem.stamped, hbytes]
  rfl

theorem Taken.capture {sec nsec : UInt64} {data : List UInt8} (h : s.Taken n)
    (hs : s.step (.capture sec nsec data) = some t) :
    t.Taken n ∧ t.onSocket = s.onSocket ∧ t.fifo.released = s.fifo.released ∧
      ∃ x, t.fifo.published = s.fifo.published ++ [x] ∧ x.stamped = ⟨sec, nsec, data.take bufferSize⟩ ∧
        x.size ≤ bufferSize := by
  have ht := h.step (show AllTaken s (.capture sec nsec data) from trivial) hs
  obtain ⟨slot, -, rfl⟩ := Option.map_eq_some_iff.1 hs
  refine ⟨ht, rfl, rfl, _, ?_, stamped_capture (s.fifo.q.data slot) sec nsec data, size_capture ..⟩
  show s.fifo.published ++ [s.fifo.q.data.set slot _ slot] = _
  rw [Mem.set_self]

theorem Taken.onSocket_prefix (hs : s.Taken n) (ht : t.Taken n) (h : s.casts <+: t.casts) :
    s.onSocket <+: t.onSocket := by
  obtain ⟨more, hmore⟩ := h
  rw [hs.onSocket, ht.onSocket, ← hmore, List.flatten_append]
  exact List.prefix_append ..

end SendSys

/-! ### The receiver -/

namespace ReceiveSys
variable {m L B : Nat} {items rest : List QItem} {s t : ReceiveSys} {x : QItem} {more : List UInt8}

/-- The receiver, with more bytes on the way to it. -/
def ahead (s : ReceiveSys) (more : List UInt8) : ReceiveSys := { s with stream := s.stream ++ more }

theorem lisaRecv_append {stream bs left : List UInt8} {request : Nat} {r : Int}
    (h : lisaRecv stream request r = some (bs, left)) : lisaRecv (stream ++ more) request r = some (bs, left ++ more) := by
  unfold lisaRecv at h ⊢
  split at h
  · next hr =>
    cases h
    rw [if_pos hr]
  · next hr =>
    obtain ⟨hfits, h⟩ := Option.ite_none_right_eq_some.1 h
    cases h
    rw [if_neg hr, if_pos ⟨hfits.1, hfits.2.1, by rw [List.length_append]; omega⟩,
      List.take_append_of_le_length hfits.2.2, List.drop_append_of_le_length hfits.2.2]

theorem getTail_ahead : (s.ahead more).getTail = s.getTail.ahead more := by
  unfold ReceiveSys.getTail
  by_cases hL : s.rd.lenReceived = 20
  · refine (if_pos hL).trans ?_
    rw [if_pos hL]
    simp only [ahead]
    cases s.fifo.getTail.prod <;> rfl
  · refine (if_neg hL).trans ?_
    rw [if_neg hL]; rfl

theorem recvLen_ahead {state : LisaState} {r : Int} (h : s.recvLen state r = some t) :
    (s.ahead more).recvLen state r = some (t.ahead more) := by
  unfold ReceiveSys.recvLen at h ⊢
  split at h
  · next hst =>
    cases h
    exact if_pos hst
  · next hst =>
    refine (if_neg hst).trans ?_
    split at h
    · next hL =>
      refine (if_pos hL).trans ?_
      split at h
      · next hneg =>
        cases h
        exact if_pos hneg
      · next hneg =>
        obtain ⟨⟨bs, left⟩, hr, rfl⟩ := Option.map_eq_some_iff.1 h
        refine (if_neg hneg).trans ?_
        exact congrArg _ (lisaRecv_append hr)
    · next hL =>
      cases h
      exact if_neg hL

theorem recvTimestamp_ahead {r : Int} (h : s.recvTimestamp r = some t) :
    (s.ahead more).recvTimestamp r = some (t.ahead more) := by
  unfold ReceiveSys.recvTimestamp at h ⊢
  split at h
  · next hL =>
    obtain ⟨⟨bs, left⟩, hr, rfl⟩ := Option.map_eq_some_iff.1 h
    refine (if_pos hL).trans ?_
    exact congrArg _ (lisaRecv_append hr)
  · next hL =>
    cases h
    exact if_neg hL

theorem recvPayload_ahead {r : Int} (h : s.recvPayload r = some t) :
    (s.ahead more).recvPayload r = some (t.ahead more) := by
  unfold ReceiveSys.recvPayload at h ⊢
  split at h
  · next hL =>
    refine (if_pos hL).trans ?_
    cases hp : s.fifo.prod with
    | none =>
      simp only [ahead, hp] at h ⊢
      cases h; rfl
    | some slot =>
      simp only [ahead, hp] at h ⊢
      split at h
      · next hsize =>
        obtain ⟨⟨bs, left⟩, hr, rfl⟩ := Option.map_eq_some_iff.1 h
        refine (if_pos hsize).trans ?_
        exact congrArg _ (lisaRecv_append hr)
      · next hsize =>
        cases h
        exact if_neg hsize
  · next hL =>
    cases h
    exact if_neg hL

/-- Bytes that are still on the way do not change what a step does. -/
theorem step_ahead {a : ReceiveAct} (h : s.step a = some t) : (s.ahead more).step a = some (t.ahead more) := by
  cases a with
  | recvLen state r =>
    obtain ⟨hpc, h⟩ := Option.ite_none_right_eq_some.1 h
    exact (if_pos hpc).trans (recvLen_ahead h)
  | recvTimestamp r =>
    obtain ⟨hpc, h⟩ := Option.ite_none_right_eq_some.1 h
    exact (if_pos hpc).trans (recvTimestamp_ahead h)
  | getTail =>
    obtain ⟨hpc, h⟩ := Option.ite_none_right_eq_some.1 h
    refine (if_pos hpc).trans ?_
    cases h
    exact congrArg _ getTail_ahead
  | recvPayload r =>
    obtain ⟨hpc, h⟩ := Option.ite_none_right_eq_some.1 h
    exact (if_pos hpc).trans (recvPayload_ahead h)
  | putTail =>
    obtain ⟨hpc, h⟩ := Option.ite_none_right_eq_some.1 h
    refine (if_pos hpc).trans ?_
    obtain ⟨slot, hp, rfl⟩ := Option.map_eq_some_iff.1 h
    show s.fifo.prod.map _ = _
    rw [hp]; rfl
  | getHead =>
    obtain ⟨fifo, hf, rfl⟩ := Option.map_eq_some_iff.1 h
    show (s.fifo.step .getHead).map _ = _
    rw [hf]; rfl
  | use =>
    obtain ⟨fifo, hf, rfl⟩ := Option.map_eq_some_iff.1 h
    show (s.fifo.step .use).map _ = _
    rw [hf]; rfl
  | usedHead =>
    obtain ⟨fifo, hf, rfl⟩ := Option.map_eq_some_iff.1 h
    show (s.fifo.step .usedHead).map _ = _
    rw [hf]; rfl

theorem step_receiveThread {a : ReceiveAct} (ha : a.ofReceiveThread = true) (h : s.step a = some t) :
    t.fifo.seen = s.fifo.seen ∧ t.fifo.published.length = s.fifo.published.length + a.published := by
  cases a with
  | recvLen state r =>
    obtain ⟨-, h⟩ := Option.ite_none_right_eq_some.1 h
    unfold ReceiveSys.recvLen at h
    split at h
    · cases h; exact ⟨rfl, rfl⟩
    · split at h
      · split at h
        · cases h; exact ⟨rfl, rfl⟩
        · obtain ⟨p, -, rfl⟩ := Option.map_eq_some_iff.1 h
          exact ⟨rfl, rfl⟩
      · cases h; exact ⟨rfl, rfl⟩
  | recvTimestamp r =>
    obtain ⟨-, h⟩ := Option.ite_none_right_eq_some.1 h
    unfold ReceiveSys.recvTimestamp at h
    split at h
    · obtain ⟨p, -, rfl⟩ := Option.map_eq_some_iff.1 h
      exact ⟨rfl, rfl⟩
    · cases h; exact ⟨rfl, rfl⟩
  | getTail =>
    obtain ⟨-, h⟩ := Option.ite_none_right_eq_some.1 h
    cases h
    unfold ReceiveSys.getTail
    split
    · cases hp : s.fifo.getTail.prod <;> simp only [hp] <;> exact ⟨rfl, rfl⟩
    · exact ⟨rfl, rfl⟩
  | recvPayload r =>
    obtain ⟨-, h⟩ := Option.ite_none_right_eq_some.1 h
    unfold ReceiveSys.recvPayload at h
    split at h
    · cases hp : s.fifo.prod with
      | none => simp only [hp] at h; cases h; exact ⟨rfl, rfl⟩
      | some slot =>
        simp only [hp] at h
        split at h
        · obtain ⟨p, -, rfl⟩ := Option.map_eq_some_iff.1 h
          exact ⟨rfl, rfl⟩
        · cases h; exact ⟨rfl, rfl⟩
    · cases h; exact ⟨rfl, rfl⟩
  | putTail =>
    obtain ⟨-, h⟩ := Option.ite_none_right_eq_some.1 h
    obtain ⟨slot, -, rfl⟩ := Option.map_eq_some_iff.1 h
    exact ⟨rfl, List.length_append ..⟩
  | getHead => cases ha
  | use => cases ha
  | usedHead => cases ha

theorem step_consumer {a : ReceiveAct} (ha : a = .getHead ∨ a = .usedHead) (h : s.step a = some t) :
    t.fifo.seen = s.fifo.seen ∧ t.fifo.published = s.fifo.published := by
  rcases ha with rfl | rfl
  · obtain ⟨fifo, hf, rfl⟩ := Option.map_eq_some_iff.1 h
    refine ⟨?_, (FifoSys.step_consumer (.inl rfl) hf).2.2⟩
    cases hc : s.fifo.cons <;> simp only [FifoSys.step, hc] at hf <;> cases hf
    show s.fifo.getHead.seen = _
    unfold FifoSys.getHead
    split <;> rfl
  · obtain ⟨fifo, hf, rfl⟩ := Option.map_eq_some_iff.1 h
    refine ⟨?_, (FifoSys.step_consumer (.inr (.inr rfl)) hf).2.2⟩
    cases hc : s.fifo.cons <;> simp only [FifoSys.step, hc] at hf <;> cases hf
    rfl

theorem step_use {slot : Nat} (hc : s.fifo.cons = .holding slot) (h : s.step .use = some t) :
    t.fifo.seen = s.fifo.seen ++ [s.fifo.q.data slot] ∧ t.fifo.published = s.fifo.published := by
  obtain ⟨fifo, hf, rfl⟩ := Option.map_eq_some_iff.1 h
  simp only [FifoSys.step, hc] at hf
  cases hf
  exact ⟨rfl, rfl⟩

theorem Reading.snoc (h : Reading rest L B s) (hx : x.size ≤ bufferSize) :
    Reading (rest ++ [x]) L B (s.ahead x.encode) := by
  have hin := h.inWire
  have hwire : wire (rest ++ [x]) = wire rest ++ x.encode := by
    rw [wire_append, wire_cons]; exact congrArg _ (List.append_nil _)
  -- bytes have arrived only when there is an item before the new one
  have hhead : 0 < L → (rest ++ [x]).head? = rest.head? := by
    intro hL
    obtain ⟨y, ys, rfl⟩ := h.exists_cons hL
    rfl
  have hle := h.le
  refine ⟨fun y hy => ?_, h.lenReceived, h.bytesReceived, h.le, h.header_first, ?_, ?_, ?_, ?_, fun hL => ?_, fun hB => ?_⟩
  · rcases List.mem_append.1 hy with hy | hy
    · exact h.small y hy
    · rw [List.mem_singleton.1 hy]; exact hx
  · show s.stream ++ x.encode = _
    rw [hwire, h.stream, List.drop_append_of_le_length hin]
  · rw [hwire, List.length_append]; omega
  · rw [hwire, List.take_append_of_le_length (by omega)]; exact h.len
  · by_cases h4 : L ≤ 4
    · rw [show L - 4 = 0 by omega]; rfl
    · rw [hwire, List.drop_append_of_le_length (by omega), List.take_append_of_le_length (by rw [List.length_drop]; omega)]
      exact h.timestamp
  · rw [hhead (by omega)]
    exact h.toReceive hL
  · have hL : L = 20 := by
      have := h.header_first
      omega
    obtain ⟨slot, hp, hbuf⟩ := h.payload hB
    refine ⟨slot, hp, ?_⟩
    rw [hwire, List.drop_append_of_le_length (by omega), List.take_append_of_le_length (by rw [List.length_drop]; omega)]
    exact hbuf

theorem AtPc.snoc (hat : AtPc rest L B s) (h : Reading rest L B s) (x : QItem) :
    AtPc (rest ++ [x]) L B (s.ahead x.encode) := by
  have hhead : 0 < L → (rest ++ [x]).head? = rest.head? := by
    intro hL
    obtain ⟨y, ys, rfl⟩ := h.exists_cons hL
    rfl
  refine ⟨hat.running, fun hpc => ?_, fun hpc hL => ?_, fun hpc => ?_⟩
  · rcases hat.unfinished hpc with h0 | hlt
    · exact .inl h0
    · rcases Nat.eq_zero_or_pos B with h0 | hB
      · exact .inl h0
      · have := h.header_first
        exact .inr (by rw [hhead (by omega)]; exact hlt)
  · rw [hhead (by omega)]
    exact hat.payload hpc hL
  · obtain ⟨hL, hput⟩ := hat.put hpc
    rw [hhead (by omega)]
    exact ⟨hL, hput⟩

theorem Inv.snoc (h : s.Inv m items) (hx : x.size ≤ bufferSize) : (s.ahead x.encode).Inv m (items ++ [x]) := by
  obtain ⟨done, rest, L, B, rfl, hsame, hr, hat⟩ := h.place
  exact ⟨h.fifo, done, rest ++ [x], L, B, List.append_assoc .., hsame, hr.snoc hx, hat.snoc hr x⟩

@[simp] theorem ahead_append (s : ReceiveSys) (bs : List UInt8) : (s.ahead bs).ahead more = s.ahead (bs ++ more) := by
  unfold ahead
  rw [List.append_assoc]

end ReceiveSys

end Injector
end WlanxVms
