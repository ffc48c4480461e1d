import WlanxVms.Injector.Relay

/-!
# The two injectors get everything through (`ci_queues.c`)

No interleaving leaves the relay in a state that it cannot leave: while the connection is up, some thread
can do something about each frame that was captured and is not injected yet. `rank` counts the sections
that are left for the frames, and one section of some thread brings it down.
-/

namespace WlanxVms

/-- A connection that can send; `accepted` is a state of servers. -/
def Lisa.Online (l : Lisa) : Prop := LisaState.connected.code ≤ l.state.code ∧ l.state ≠ .accepted

instance (l : Lisa) : Decidable l.Online := inferInstanceAs (Decidable (_ ∧ _))

def ConsumerPc.rank : ConsumerPc → Nat
  | .idle => 2
  | .holding _ => 1
  | .used _ => 0

def FifoSys.rank {α : Type} (s : FifoSys α) : Nat := 3 * s.pending.length + s.cons.rank

namespace Injector

/-- The actions of the capture thread -/
def RelayAct.captures : RelayAct → Bool
  | .getTail | .next .. => true
  | _ => false

/-! ### The send thread -/

def SendingPc.rank : SendingPc → Nat
  | .start => 5
  | .len => 4
  | .timestamp => 3
  | .payload => 2
  | .used => 1
  | .aborted => 0

namespace SendSys
variable {n : Nat} {s t : SendSys} {msg : List UInt8}

def rank (s : SendSys) : Nat := 6 * s.fifo.pending.length + s.pc.rank

theorem takesAll_sends {l : Lisa} (h : l.Online) : takesAll l msg [[.sends msg.length]] = true := by
  simp [takesAll, h.1, SendOutcome.ok, SendOutcome.accepted]

theorem lisaSend_online {l : Lisa} (h : l.Online) (hlen : msg.length < 2 ^ 31) :
    ∃ o r, l.lisaSend msg o = some r ∧ takesAll l msg [o] = true ∧ r.1.Online := by
  have hpre : l.sendPre = some ⟨if l.clsvr = .client then l.fd else l.clientFd, l.state, l.type⟩ := by
    rw [Lisa.sendPre, if_neg (Int.not_lt.2 h.1), if_pos h.2]
  have herr : l.state ≠ .error := fun he => absurd h.1 (by rw [he]; decide)
  have hpost : ∀ st : LisaState, LisaState.connected.code ≤ st.code ∧ st ≠ .accepted → (l.sendPost st).Online := by
    intro st hst
    rw [Lisa.sendPost, if_pos h.2]
    exact hst
  have hsent : LisaState.connected.code ≤ LisaState.sentData.code ∧ LisaState.sentData ≠ .accepted := by decide
  by_cases htcp : l.type = .tcp
  · by_cases hmsg : msg = []
    · -- an empty message does not enter the loop
      subst hmsg
      refine ⟨[], (l.sendPost l.state, 0, []), ?_, rfl, hpost l.state h⟩
      simp [Lisa.lisaSend, hpre, Lisa.sendBody, htcp, Lisa.sendLoop, asInt]
    · have hpos : 0 < msg.length ∧ l.state ≠ .error := ⟨List.length_pos_iff.2 hmsg, herr⟩
      have hu : u32 (msg.length : Int) = msg.length := u32_of_lt (by omega)
      refine ⟨[.sends msg.length], (l.sendPost .sentData, asInt msg.length, msg), ?_, takesAll_sends h, hpost _ hsent⟩
      have hint : ¬asInt msg.length < 0 := by unfold asInt; omega
      simp [Lisa.lisaSend, hpre, Lisa.sendBody, htcp, Lisa.sendLoop, Lisa.sendRound, hpos, hu, hint]
  · refine ⟨[.sends msg.length], (l.sendPost .sentData, msg.length, msg), ?_, takesAll_sends h, hpost _ hsent⟩
    have hnat : ¬(msg.length : Int) < 0 := by omega
    simp [Lisa.lisaSend, hpre, Lisa.sendBody, htcp, hnat]

theorem cast_online (hcl : s.lp.clsvr = .client) (h : s.lp.Online) (hlen : msg.length < 2 ^ 31) :
    ∃ outs lp sends, s.cast msg outs = some ({ s with lp, casts := s.casts ++ [msg], sends }, (msg.length : Int)) ∧
      takesAll s.lp msg outs = true ∧ lp.Online := by
  obtain ⟨o, r, hsend, hall, hon⟩ := lisaSend_online h hlen
  refine ⟨[o], r.1, s.sends ++ [(s.lp.fd, r.2.2)], ?_, hall, hon⟩
  unfold SendSys.cast Lisa.lisaCast
  rw [if_pos hcl]
  simp [hsend]

theorem rank_lt_of_pc (hf : t.fifo = s.fifo) (hpc : t.pc.rank < s.pc.rank) : t.rank < s.rank := by
  rw [rank, rank, hf]
  exact Nat.add_lt_add_left hpc _

theorem Taken.moves (h : s.Taken n) (hon : s.lp.Online) (hne : s.fifo.pending ≠ []) :
    ∃ a t, a.ofSendThread = true ∧ AllTaken s a ∧ s.step a = some t ∧ t.lp.Online ∧ t.rank < s.rank := by
  have hi := h.inv
  have hlen := hi.lenProcessed
  cases hpc : s.pc with
  | start =>
    obtain ⟨hip, hcons⟩ := hi.idle hpc
    obtain ⟨slot, hslot⟩ := Option.ne_none_iff_exists'.1 fun he => hne (hi.fifo.rep.getHead_eq_none.1 he)
    refine ⟨.fetch, s.fetch, rfl, .inr (.inl hon.1), if_pos hpc, ?_, ?_⟩
    · rw [(fetch_frame s).1]; exact hon
    · have hfetch : s.fetch.pc = .len ∧ s.fetch.fifo.pending = s.fifo.pending := by
        unfold SendSys.fetch FifoSys.getHead
        simp [hip, hon.1, hslot, FifoSys.pending]
      rw [rank, rank, hfetch.1, hfetch.2, hpc]
      exact Nat.add_lt_add_left (by decide) _
  | len =>
    obtain ⟨slot, xs, hitem, -, -, -⟩ := hi.head (by simp [hpc])
    have hmsg : (s.lenMsg slot).length < 2 ^ 31 := by rw [lenMsg, Mem.length_read]; omega
    obtain ⟨outs, lp, sends, hcast, hall, hon'⟩ := cast_online h.client hon hmsg
    have hlt : s.sd.lenProcessed < 4 := by rw [hlen, hpc]; decide
    obtain ⟨t, hs, rfl, htpc, hf⟩ : ∃ t, s.step (.castLen outs) = some t ∧ t.lp = lp ∧ t.pc = .timestamp ∧
        t.fifo = s.fifo := by
      simp [SendSys.step, hpc, onItem, hitem, SendSys.castLen, hlt, hcast]
    exact ⟨.castLen outs, t, rfl, by simpa [AllTaken, hitem] using hall, hs, hon',
      rank_lt_of_pc hf (by rw [htpc, hpc]; decide)⟩
  | timestamp =>
    obtain ⟨slot, xs, hitem, -, -, -⟩ := hi.head (by simp [hpc])
    have hmsg : (s.timestampMsg slot).length < 2 ^ 31 := by rw [timestampMsg, Mem.length_read]; omega
    obtain ⟨outs, lp, sends, hcast, hall, hon'⟩ := cast_online h.client hon hmsg
    have hlt : 4 ≤ s.sd.lenProcessed ∧ s.sd.lenProcessed < 20 := by rw [hlen, hpc]; decide
    obtain ⟨t, hs, rfl, htpc, hf⟩ : ∃ t, s.step (.castTimestamp outs) = some t ∧ t.lp = lp ∧ t.pc = .payload ∧
        t.fifo = s.fifo := by
      simp [SendSys.step, hpc, onItem, hitem, SendSys.castTimestamp, hlt, hcast]
    exact ⟨.castTimestamp outs, t, rfl, by simpa [AllTaken, hitem] using hall, hs, hon',
      rank_lt_of_pc hf (by rw [htpc, hpc]; decide)⟩
  | payload =>
    obtain ⟨slot, xs, hitem, -, -, hsize⟩ := hi.head (by simp [hpc])
    unfold bufferSize at hsize
    have hpkt := hi.pktProcessed (by simp [hpc])
    have hmsg : (s.payloadMsg slot).length = (s.fifo.q.data slot).size := by
      rw [payloadMsg, Mem.length_read, hpkt, u32_sub (Nat.zero_le _) (by omega)]; rfl
    obtain ⟨outs, lp, sends, hcast, hall, hon'⟩ := cast_online h.client hon
      (show (s.payloadMsg slot).length < 2 ^ 31 by omega)
    have hend : s.sd.lenProcessed = 20 := by rw [hlen, hpc]; decide
    have hdone : u32 ((s.fifo.q.data slot).size : Int) = (s.fifo.q.data slot).size := u32_of_lt (by omega)
    obtain ⟨t, hs, rfl, htpc, hf⟩ : ∃ t, s.step (.castPayload outs) = some t ∧ t.lp = lp ∧ t.pc = .used ∧
        t.fifo = s.fifo := by
      simp [SendSys.step, hpc, onItem, hitem, SendSys.castPayload, hend, hcast, hmsg, hpkt, hdone]
    exact ⟨.castPayload outs, t, rfl, by simpa [AllTaken, hitem] using hall, hs, hon',
      rank_lt_of_pc hf (by rw [htpc, hpc]; decide)⟩
  | used =>
    obtain ⟨slot, xs, hitem, hcons, hx, -⟩ := hi.head (by simp [hpc])
    refine ⟨.usedHead, s.usedHead slot, rfl, trivial, ?_, hon, ?_⟩
    · rw [SendSys.step, if_pos hpc, onItem, hitem]
    · have hlt := hi.fifo.released_lt (show s.fifo.consSlot = some slot by simp [FifoSys.consSlot, hcons])
      show 6 * (s.fifo.published.drop (s.fifo.released + 1)).length + 5 < 6 * (s.fifo.published.drop _).length + s.pc.rank
      rw [hpc, List.length_drop, List.length_drop]
      show _ < _ + 1
      omega
  | aborted => exact absurd hpc hi.running

end SendSys

/-! ### The receive thread -/

/-- With less than a whole header the call ends, and the next one reads what is missing. -/
def ReceivingPc.rank (pc : ReceivingPc) (lenReceived : Int) : Nat :=
  match pc with
  | .timestamp => if lenReceived < 4 then 11 else 7
  | .tail => if lenReceived < 20 then 10 else 6
  | .payload => if lenReceived < 20 then 9 else 5
  | .start => 8
  | .put => 4
  | .aborted | .outOfBounds => 0

namespace ReceiveSys
variable {m : Nat} {items : List QItem} {s t : ReceiveSys}

/-- Of `total` frames, those that are not published yet, and those that are not injected -/
def rank (total : Nat) (s : ReceiveSys) : Nat :=
  16 * (total - s.fifo.published.length) + s.pc.rank s.rd.lenReceived + s.fifo.rank

theorem rank_lt_of_pc {total : Nat} (hpub : t.fifo.published = s.fifo.published) (hrel : t.fifo.released = s.fifo.released)
    (hcons : t.fifo.cons = s.fifo.cons) (hpc : t.pc.rank t.rd.lenReceived < s.pc.rank s.rd.lenReceived) :
    t.rank total < s.rank total := by
  have hf : t.fifo.rank = s.fifo.rank := by
    unfold FifoSys.rank FifoSys.pending
    rw [hpub, hrel, hcons]
  rw [rank, rank, hpub, hf]
  omega

@[simp] theorem lenReceived_readLength (rd : ReceivingData) : rd.readLength.lenReceived = rd.lenReceived := by
  unfold ReceivingData.readLength
  split <;> rfl

theorem lisaRecv_all {stream : List UInt8} {request k : Nat} (hk : k ≤ request) (hks : k ≤ stream.length) :
    lisaRecv stream request (k : Int) = some (stream.take k, stream.drop k) := by
  rw [lisaRecv, if_neg (by omega), if_pos (by omega)]
  rfl

/-- A section of the receive thread can run and brings the `total` frames closer. -/
def Moves (total : Nat) (s : ReceiveSys) : Prop :=
  ∃ a t, a.ofReceiveThread = true ∧ Delivers s a ∧ s.step a = some t ∧ t.rank total < s.rank total

section
variable {x : QItem} {xs : List QItem} {L B : Nat}

theorem Reading.length_stream (hr : Reading (x :: xs) L B s) : 20 + x.size ≤ s.stream.length + (L + B) := by
  have hwire := le_length_wire x xs
  have hlen := congrArg List.length hr.stream
  have hin := hr.inWire
  rw [List.length_drop] at hlen
  omega

theorem Reading.moves_start (hr : Reading (x :: xs) L B s) (hpc : s.pc = .start) (total : Nat) : s.Moves total := by
  have hlen := hr.lenReceived
  by_cases h4 : L < 4
  · have hB := hr.header_first (by omega)
    have hstream := hr.length_stream
    have hrecv := lisaRecv_all (show 4 - L ≤ ((4 : Int) - L).toNat by omega) (show 4 - L ≤ s.stream.length by omega)
    obtain ⟨t, hs, hf, htpc, htL⟩ : ∃ t, s.step (.recvLen .connected (4 - L : Nat)) = some t ∧ t.fifo = s.fifo ∧
        t.pc = .timestamp ∧ t.rd.lenReceived = 4 := by
      rw [ReceiveSys.step, if_pos hpc, ReceiveSys.recvLen, if_neg (by decide), hlen, if_pos (by omega), if_neg (by omega),
        hrecv]
      refine ⟨_, rfl, rfl, rfl, ?_⟩
      rw [lenReceived_readLength]
      show (L : Int) + (4 - L : Nat) = 4
      omega
    refine ⟨.recvLen .connected (4 - L : Nat), t, rfl, Int.natCast_nonneg _, hs,
      rank_lt_of_pc (by rw [hf]) (by rw [hf]) (by rw [hf]) ?_⟩
    rw [htpc, htL, hpc]
    exact (by decide : 7 < 8)
  · refine ⟨.recvLen .connected 0, { s with rd := s.rd.readLength, pc := .timestamp }, rfl, Int.le_refl 0, ?_,
      rank_lt_of_pc rfl rfl rfl ?_⟩
    · rw [ReceiveSys.step, if_pos hpc, ReceiveSys.recvLen, if_neg (by decide), if_neg (by omega)]
    · show ReceivingPc.rank .timestamp s.rd.readLength.lenReceived < _
      rw [lenReceived_readLength, hlen, hpc]
      show (if (L : Int) < 4 then 11 else 7) < 8
      rw [if_neg (by omega)]
      decide

theorem Reading.moves_timestamp (hr : Reading (x :: xs) L B s) (hpc : s.pc = .timestamp) (total : Nat) :
    s.Moves total := by
  have hlen := hr.lenReceived
  by_cases h4 : 4 ≤ L ∧ L < 20
  · have hB := hr.header_first h4.2
    have hstream := hr.length_stream
    have hrecv := lisaRecv_all (show 20 - L ≤ ((20 : Int) - L).toNat by omega) (show 20 - L ≤ s.stream.length by omega)
    obtain ⟨t, hs, hf, htpc, htL⟩ : ∃ t, s.step (.recvTimestamp (20 - L : Nat)) = some t ∧ t.fifo = s.fifo ∧
        t.pc = .tail ∧ t.rd.lenReceived = 20 := by
      rw [ReceiveSys.step, if_pos hpc, ReceiveSys.recvTimestamp, hlen, if_pos (by omega), hrecv]
      refine ⟨_, rfl, rfl, rfl, ?_⟩
      show (L : Int) + (20 - L : Nat) = 20
      omega
    refine ⟨.recvTimestamp (20 - L : Nat), t, rfl, Int.natCast_nonneg _, hs,
      rank_lt_of_pc (by rw [hf]) (by rw [hf]) (by rw [hf]) ?_⟩
    rw [htpc, htL, hpc, hlen]
    show (if (20 : Int) < 20 then 10 else 6) < if (L : Int) < 4 then 11 else 7
    rw [if_neg (by decide), if_neg (by omega)]
    decide
  · have hL := hr.le
    refine ⟨.recvTimestamp 0, { s with pc := .tail }, rfl, Int.le_refl 0, ?_, rank_lt_of_pc rfl rfl rfl ?_⟩
    · rw [ReceiveSys.step, if_pos hpc, ReceiveSys.recvTimestamp, hlen, if_neg (by omega)]
    · rw [hpc, hlen]
      show (if (L : Int) < 20 then 10 else 6) < if (L : Int) < 4 then 11 else 7
      split <;> split <;> omega

/-- The injector has given every slot back. -/
theorem Reading.moves_tail (hr : Reading (x :: xs) L B s) (hf : s.fifo.Inv m) (hpend : s.fifo.pending = [])
    (hpc : s.pc = .tail) (total : Nat) : s.Moves total := by
  have hlen := hr.lenReceived
  have hL := hr.le
  refine ⟨.getTail, s.getTail, rfl, trivial, if_pos hpc, ?_⟩
  obtain ⟨slot, hslot⟩ := Option.ne_none_iff_exists'.1 fun he => by
    have hfull := hf.rep.getTail_eq_none.1 he
    rw [hpend] at hfull
    exact absurd hfull (Nat.ne_of_lt hf.rep.num_pos)
  have hprod : s.fifo.getTail.prod = some slot := hslot
  by_cases h20 : L = 20
  · obtain ⟨item, hgt⟩ : ∃ item, s.getTail = { s with fifo := s.fifo.getTail.fill slot item, pc := .payload } := by
      rw [ReceiveSys.getTail, if_pos (by omega)]
      simp only [hprod]
      exact ⟨_, rfl⟩
    rw [hgt]
    refine rank_lt_of_pc rfl rfl rfl ?_
    rw [hpc, hlen, h20]
    exact (by decide : 5 < 6)
  · have hgt : s.getTail = { s with pc := .payload } := by
      rw [ReceiveSys.getTail, if_neg (by omega)]
    rw [hgt]
    refine rank_lt_of_pc rfl rfl rfl ?_
    rw [hpc, hlen]
    show (if (L : Int) < 20 then 9 else 5) < if (L : Int) < 20 then 10 else 6
    rw [if_pos (by omega), if_pos (by omega)]
    decide

theorem Reading.moves_payload (hr : Reading (x :: xs) L B s) (hat : AtPc (x :: xs) L B s) (hpc : s.pc = .payload)
    (total : Nat) : s.Moves total := by
  have hlen := hr.lenReceived
  by_cases h20 : L = 20
  · subst h20
    obtain ⟨slot, hprod, -⟩ := hat.payload hpc rfl
    have hstream := hr.length_stream
    have hto := hr.toReceive (.inl (by decide)) x rfl
    have hsize := hr.small x List.mem_cons_self
    have hmax := hsize
    unfold bufferSize at hmax
    have hB : B ≤ x.size := by
      rcases hat.unfinished (by simp [hpc]) with rfl | hu
      · exact Nat.zero_le _
      · exact Nat.le_of_lt (hu x rfl)
    have hrecv := lisaRecv_all (Nat.le_refl (x.size - B)) (show x.size - B ≤ s.stream.length by omega)
    obtain ⟨t, hs, rfl⟩ : ∃ t, s.step (.recvPayload (x.size - B : Nat)) = some t ∧
        t = s.takePayload slot (x.size - B : Nat) (s.stream.take (x.size - B)) (s.stream.drop (x.size - B)) := by
      rw [ReceiveSys.step, if_pos hpc, ReceiveSys.recvPayload, hlen, if_pos (by decide), hprod]
      simp only [if_pos (hto.trans_le hsize)]
      rw [hto, hr.bytesReceived, u32_sub hB (by omega), hrecv]
      exact ⟨_, rfl, rfl⟩
    refine ⟨.recvPayload (x.size - B : Nat), _, rfl, Int.natCast_nonneg _, hs, rank_lt_of_pc rfl rfl rfl ?_⟩
    have hput : payloadPc { s.rd with bytesReceived := u32 (s.rd.bytesReceived + (x.size - B : Nat)) } = .put := by
      rw [hr.bytesReceived, ← Int.natCast_add, Nat.add_sub_cancel' hB, u32_of_lt (by omega)]
      simp [payloadPc, hto]
    show ReceivingPc.rank (payloadPc _) s.rd.lenReceived < _
    rw [hput, hpc, hlen]
    decide
  · have hL := hr.le
    refine ⟨.recvPayload 0, { s with pc := .start }, rfl, Int.le_refl 0, ?_, rank_lt_of_pc rfl rfl rfl ?_⟩
    · rw [ReceiveSys.step, if_pos hpc, ReceiveSys.recvPayload, if_neg (by omega)]
    · rw [hpc, hlen]
      show 8 < if (L : Int) < 20 then 9 else 5
      rw [if_pos (by omega)]
      decide

end

theorem moves_put {slot total : Nat} (hf : s.fifo.Inv m) (hpend : s.fifo.pending = []) (hpc : s.pc = .put)
    (hprod : s.fifo.prod = some slot) (hlt : s.fifo.published.length < total) : s.Moves total := by
  refine ⟨.putTail, { s with rd := s.rd.init, fifo := s.fifo.putTail slot, pc := .start }, rfl, trivial,
    (if_pos hpc).trans ?_, ?_⟩
  · rw [ReceiveSys.putTail, hprod]; rfl
  · have hrel := hf.released_le
    have hzero := congrArg List.length hpend
    rw [FifoSys.pending, List.length_drop, List.length_nil] at hzero
    unfold rank FifoSys.rank FifoSys.pending
    show 16 * (_ - (s.fifo.published ++ [_]).length) + 8 + (3 * (List.drop s.fifo.released _).length + s.fifo.cons.rank) < _
    simp only [hpc, FifoSys.putTail, List.length_append, List.length_drop, List.length_singleton]
    show _ < _ + 4 + _
    omega

theorem Inv.moves (h : s.Inv m items) (hpend : s.fifo.pending = []) (hlt : s.fifo.published.length < items.length) :
    s.Moves items.length := by
  obtain ⟨done, rest, L, B, rfl, hsame, hr, hat⟩ := h.place
  obtain ⟨x, xs, rfl⟩ := List.exists_cons_of_ne_nil (show rest ≠ [] by
    rintro rfl
    rw [List.append_nil, hsame.length_eq] at hlt
    exact Nat.lt_irrefl _ hlt)
  cases hpc : s.pc with
  | start => exact hr.moves_start hpc _
  | timestamp => exact hr.moves_timestamp hpc _
  | tail => exact hr.moves_tail h.fifo hpend hpc _
  | payload => exact hr.moves_payload hat hpc _
  | put =>
    obtain ⟨-, slot, hprod, -⟩ := hat.put hpc
    exact moves_put h.fifo hpend hpc hprod hlt
  | aborted => exact absurd hpc hat.running.1
  | outOfBounds => exact absurd hpc hat.running.2

theorem rank_lt_of_fifo (total : Nat) {g : FifoSys QItem} (hpub : g.published = s.fifo.published)
    (hg : g.rank < s.fifo.rank) : ({ s with fifo := g } : ReceiveSys).rank total < s.rank total := by
  show 16 * (total - g.published.length) + s.pc.rank s.rd.lenReceived + g.rank < _
  rw [hpub]
  exact Nat.add_lt_add_left hg _

theorem consumer_moves {f : FifoSys QItem} (h : f.Inv m) (hne : ¬(f.cons = .idle ∧ f.pending = [])) :
    ∃ a g, (a = .getHead ∨ a = .use ∨ a = .usedHead) ∧ f.step a = some g ∧ g.rank < f.rank := by
  cases hc : f.cons with
  | idle =>
    obtain ⟨slot, hslot⟩ := Option.ne_none_iff_exists'.1 fun he => hne ⟨hc, h.rep.getHead_eq_none.1 he⟩
    refine ⟨.getHead, { f with cons := .holding slot }, .inl rfl, ?_, ?_⟩
    · simp only [FifoSys.step, hc, FifoSys.getHead, hslot]
    · rw [FifoSys.rank, FifoSys.rank, hc]
      exact Nat.add_lt_add_left (by decide : 1 < 2) _
  | holding slot =>
    refine ⟨.use, f.use slot, .inr (.inl rfl), ?_, ?_⟩
    · simp only [FifoSys.step, hc]
    · rw [FifoSys.rank, FifoSys.rank, hc]
      exact Nat.add_lt_add_left (by decide : 0 < 1) _
  | used slot =>
    refine ⟨.usedHead, f.usedHead, .inr (.inr rfl), ?_, ?_⟩
    · simp only [FifoSys.step, hc]
    · have hlt := h.released_lt (show f.consSlot = some slot by simp [FifoSys.consSlot, hc])
      rw [FifoSys.rank, FifoSys.rank, hc, FifoSys.pending, FifoSys.pending, List.length_drop, List.length_drop]
      show 3 * (f.published.length - (f.released + 1)) + 2 < _ + 0
      omega

end ReceiveSys

/-! ### Every state -/

namespace RelaySys
variable {n m : Nat} {s : RelaySys}

def rank (s : RelaySys) : Nat := s.sender.rank + s.receiver.rank s.sender.fifo.published.length

/-! ### The injector's clock -/

/-- No lag is zero, and the total grows with each. -/
theorem uncancelled_of_pos {ds : List Int} {total : Int} (h : 0 ≤ total) (hpos : ∀ d ∈ ds, 0 < d) (full : Bool) :
    Uncancelled total full ds := by
  induction ds generalizing total full with
  | nil => trivial
  | cons d ds ih =>
    obtain ⟨hd, hds⟩ := List.forall_mem_cons.1 hpos
    exact ⟨by omega, fun hzero => by omega, ih (by omega) hds _⟩

/-- The clock after the injection was later than the capture. -/
def Later (i : Injection) : Prop := ∀ c ∈ i.lagCall, c.Valid ∧ 0 < c.lag

theorem lags_pos {is : List Injection} (h : ∀ i ∈ is, Later i) : ∀ d ∈ lags (is.filterMap Injection.lagCall), 0 < d := by
  intro d hd
  obtain ⟨c, hc, rfl⟩ := List.mem_map.1 hd
  obtain ⟨i, hi, hcall⟩ := List.mem_filterMap.1 hc
  exact (h i hi c hcall).2

theorem Inv.running (h : s.Inv n m) (hlater : ∀ i ∈ s.injected, Later i)
    (hfits : (lags s.lagCalls).sum < 2 ^ 64 * 1000000000) : s.aborted = false := by
  have hpos : ∀ d ∈ lags s.lagCalls, 0 < d := lags_pos hlater
  have hvalid : ∀ c ∈ s.lagCalls, c.Valid := fun c hc => by
    obtain ⟨i, hi, hcall⟩ := List.mem_filterMap.1 hc
    exact (hlater i hi c hcall).1
  have hpart : ∀ k, |(0 : Int) + ((lags s.lagCalls).take k).sum| < 2 ^ 64 * 1000000000 := fun k => by
    have hle := ((List.take_sublist k (lags s.lagCalls))).sum_le_sum fun d hd => (hpos d hd).le
    have hnonneg : 0 ≤ ((lags s.lagCalls).take k).sum :=
      List.sum_nonneg fun d hd => (hpos d (List.mem_of_mem_take hd)).le
    rw [Int.zero_add, abs_of_nonneg hnonneg]
    omega
  have hprofiled := h.profiled
  rcases lagTimeStatic_inv.updates hvalid hpart with ⟨-, hcancel⟩ | ⟨u, full, hu, -, -⟩
  · exact absurd (uncancelled_of_pos (Int.le_refl 0) hpos false) hcancel
  · cases hrun : s.aborted with
    | false => rfl
    | true => rw [Profiled, hu, hrun] at hprofiled; cases hprofiled

/-! ### Every section -/

/-- The injections so far, and what is left of `is` -/
structure Toward (is : List Injection) (s : RelaySys) : Prop where
  injected : s.injected <+: is
  captured : is.map Injection.frame = s.captured

theorem Toward.length_lt {is : List Injection} (h : Toward is s) (hne : s.injected ≠ is) :
    s.injected.length < is.length :=
  Nat.lt_of_le_of_ne h.injected.length_le fun he => hne (h.injected.eq_of_length he)

/-- Whatever `pcap_inject` and the clock give -/
theorem step_inject {slot : Nat} {g : FifoSys QItem} (hrun : s.aborted = false)
    (hc : s.receiver.fifo.cons = .holding slot) (hg : s.receiver.fifo.step .use = some g) (rc : Int)
    (now : Option Timespec) :
    ∃ t, s.step (.inject rc now) = some t ∧ t.sender = s.sender ∧ t.receiver = { s.receiver with fifo := g } ∧
      t.captured = s.captured ∧ t.injected = s.injected ++ [⟨(s.receiver.fifo.q.data slot).stamped, rc, now⟩] := by
  simp only [RelaySys.step, hrun, Bool.false_eq_true, if_false, RelaySys.inject, hc, ReceiveSys.step, hg, Option.map_some]
  split
  · exact ⟨_, rfl, rfl, rfl, rfl, rfl⟩
  · split
    · exact ⟨_, rfl, rfl, rfl, rfl, rfl⟩
    · exact ⟨_, rfl, rfl, rfl, rfl, rfl⟩

/-- The frame that the injector holds is the next one of `is`. -/
theorem Inv.holds_next (h : s.Inv n m) {is : List Injection} (hrun : s.aborted = false) (htoward : Toward is s)
    {slot : Nat} {g : FifoSys QItem} (hc : s.receiver.fifo.cons = .holding slot)
    (hg : s.receiver.fifo.step .use = some g) :
    ∃ i rest, s.injected ++ i :: rest = is ∧ (s.receiver.fifo.q.data slot).stamped = i.frame := by
  obtain ⟨t, hs, -, -, hcaptured, hinjected⟩ := step_inject hrun hc hg 0 none
  have hhead := (h.step (show Carries s (.inject 0 none) from trivial) hs).injected_initial
  obtain ⟨rest, hrest⟩ := htoward.injected
  rw [hcaptured, ← htoward.captured, hinjected, ← hrest, List.map_append, List.map_append,
    List.prefix_append_right_inj] at hhead
  cases rest with
  | nil => exact absurd hhead.length_le (by simp)
  | cons i rest => exact ⟨i, rest, hrest, by simpa using hhead⟩

theorem Inv.injectorMoves (h : s.Inv n m) {is : List Injection} (hrun : s.aborted = false) (htoward : Toward is s)
    (hne : ¬(s.receiver.fifo.cons = .idle ∧ s.receiver.fifo.pending = [])) :
    ∃ a t, a.captures = false ∧ Carries s a ∧ s.step a = some t ∧ t.sender = s.sender ∧ Toward is t ∧
      t.rank < s.rank := by
  obtain ⟨a, g, ha, hg, hlt⟩ := ReceiveSys.consumer_moves h.published.1 hne
  have hpub := (FifoSys.step_consumer ha hg).2.2
  have hrank := ReceiveSys.rank_lt_of_fifo s.sender.fifo.published.length hpub hlt
  rcases ha with rfl | rfl | rfl
  · refine ⟨.getHead, { s with receiver := { s.receiver with fifo := g } }, rfl, trivial, ?_, rfl, ⟨htoward.injected,
      htoward.captured⟩, Nat.add_lt_add_left hrank _⟩
    simp only [RelaySys.step, hrun, Bool.false_eq_true, if_false, ReceiveSys.step, hg, Option.map_some]
  · obtain ⟨slot, hc⟩ : ∃ slot, s.receiver.fifo.cons = .holding slot := by
      cases hc : s.receiver.fifo.cons <;> simp only [FifoSys.step, hc] at hg <;> cases hg
      exact ⟨_, rfl⟩
    obtain ⟨i, rest, hrest, hi⟩ := h.holds_next hrun htoward hc hg
    obtain ⟨t, hs, hsender, hreceiver, hcaptured, hinjected⟩ := step_inject hrun hc hg i.rc i.now
    refine ⟨.inject i.rc i.now, t, rfl, trivial, hs, hsender, ⟨?_, htoward.captured.trans hcaptured.symm⟩, ?_⟩
    · rw [hinjected, hi, ← hrest]
      exact ⟨rest, by rw [List.append_assoc]; rfl⟩
    · rw [rank, rank, hsender, hreceiver]
      exact Nat.add_lt_add_left hrank _
  · refine ⟨.usedHead, { s with receiver := { s.receiver with fifo := g } }, rfl, trivial, ?_, rfl, ⟨htoward.injected,
      htoward.captured⟩, Nat.add_lt_add_left hrank _⟩
    simp only [RelaySys.step, hrun, Bool.false_eq_true, if_false, ReceiveSys.step, hg, Option.map_some]

theorem Inv.senderMoves (h : s.Inv n m) {is : List Injection} (htoward : Toward is s) (hon : s.sender.lp.Online)
    (hsend : s.sender.fifo.pending ≠ []) :
    ∃ a t, a.captures = false ∧ Carries s a ∧ s.step a = some t ∧ t.sender.lp.Online ∧ Toward is t ∧
      t.rank < s.rank := by
  obtain ⟨a, sender, ha, hG, hs, hon', hrank⟩ := h.taken.moves hon hsend
  obtain ⟨hpub, -, -⟩ := h.taken.inv.sendThread ha hs
  obtain ⟨t, hst, hsender, ⟨bs, hreceiver⟩, hcaptured, hinjected⟩ : ∃ t, s.step (.send a) = some t ∧
      t.sender = sender ∧ (∃ bs, t.receiver = s.receiver.ahead bs) ∧ t.captured = s.captured ∧
      t.injected = s.injected := by
    simp only [RelaySys.step, if_pos ha, RelaySys.send, hs, Option.map_some]
    exact ⟨_, rfl, rfl, ⟨_, rfl⟩, rfl, rfl⟩
  refine ⟨.send a, t, rfl, hG, hst, by rw [hsender]; exact hon',
    ⟨hinjected ▸ htoward.injected, htoward.captured.trans hcaptured.symm⟩, ?_⟩
  rw [rank, rank, hsender, hreceiver, hpub]
  exact Nat.add_lt_add_right hrank _

/-- What was received is injected, so a frame that is not was not received. -/
theorem Inv.received_lt (h : s.Inv n m) {is : List Injection} (htoward : Toward is s)
    (hcons : s.receiver.fifo.cons = .idle) (hpend : s.receiver.fifo.pending = []) (hne : s.injected ≠ is) :
    s.receiver.fifo.published.length < s.sender.fifo.published.length := by
  have hseen := congrArg List.length h.injected
  have hreleased : s.receiver.fifo.published.length ≤ s.receiver.fifo.released := List.drop_eq_nil_iff.1 hpend
  have hmissing := htoward.length_lt hne
  have htotal := congrArg List.length htoward.captured
  have hcaptured := congrArg List.length h.captured
  rw [h.published.1.seen, FifoSys.numSeen, hcons, List.take_of_length_le hreleased, List.length_map,
    List.length_map] at hseen
  rw [List.length_map] at hcaptured htotal
  omega

theorem Inv.receiverMoves (h : s.Inv n m) {is : List Injection} (hrun : s.aborted = false) (htoward : Toward is s)
    (hsend : s.sender.fifo.pending = []) (hcons : s.receiver.fifo.cons = .idle) (hpend : s.receiver.fifo.pending = [])
    (hne : s.injected ≠ is) :
    ∃ a t, a.captures = false ∧ Carries s a ∧ s.step a = some t ∧ t.sender = s.sender ∧ Toward is t ∧
      t.rank < s.rank := by
  obtain ⟨more, hmore, hr⟩ := h.stream
  have hsent : s.sender.fifo.published.length ≤ s.sender.fifo.released := List.drop_eq_nil_iff.1 hsend
  have hsocket := h.taken.framesCounted.onSocket
  rw [hsend, List.take_of_length_le hsent] at hsocket
  obtain rfl : more = [] := by
    rw [hsocket] at hmore
    simpa [wire] using hmore
  have hahead : s.receiver.ahead [] = s.receiver := by rw [ReceiveSys.ahead, List.append_nil]
  rw [hahead] at hr
  obtain ⟨a, receiver, ha, hG, hs, hrank⟩ := hr.moves hpend (h.received_lt htoward hcons hpend hne)
  refine ⟨.receive a, { s with receiver, packetsReceived := i32 (s.packetsReceived + a.published) },
    rfl, hG, ?_, rfl, ⟨htoward.injected, htoward.captured⟩, Nat.add_lt_add_left hrank _⟩
  simp only [RelaySys.step, if_pos (And.intro ha hrun), RelaySys.receive, hs, Option.map_some]

/-- While a captured frame is not injected, some thread can do its next section. -/
theorem Inv.moves (h : s.Inv n m) {is : List Injection} (hrun : s.aborted = false) (htoward : Toward is s)
    (hon : s.sender.lp.Online) (hne : s.injected ≠ is) :
    ∃ a t, a.captures = false ∧ Carries s a ∧ s.step a = some t ∧ t.sender.lp.Online ∧ Toward is t ∧
      t.rank < s.rank := by
  by_cases hidle : s.receiver.fifo.cons = .idle ∧ s.receiver.fifo.pending = []
  · by_cases hsend : s.sender.fifo.pending = []
    · obtain ⟨a, t, ha, hG, hs, hsender, htoward', hrank⟩ := h.receiverMoves hrun htoward hsend hidle.1 hidle.2 hne
      exact ⟨a, t, ha, hG, hs, by rw [hsender]; exact hon, htoward', hrank⟩
    · exact h.senderMoves htoward hon hsend
  · obtain ⟨a, t, ha, hG, hs, hsender, htoward', hrank⟩ := h.injectorMoves hrun htoward hidle
    exact ⟨a, t, ha, hG, hs, by rw [hsender]; exact hon, htoward', hrank⟩

theorem Inv.rank_le (h : s.Inv n m) : s.rank ≤ 22 * (s.captured.length - s.injected.length) + 27 := by
  have hcap := congrArg List.length h.captured
  have hinj := congrArg List.length h.injected
  have hf := h.published.1
  have hrec := h.received_le
  have hseen : s.receiver.fifo.numSeen ≤ s.receiver.fifo.released + 1 := by
    unfold FifoSys.numSeen
    split <;> omega
  have hle := hf.numSeen_le
  have hpub := h.taken.inv.fifo.released_le
  have hdone : s.receiver.fifo.published.length ≤ s.sender.fifo.published.length := by
    obtain ⟨-, done, hprefix, hsame⟩ := h.published
    rw [hsame.length_eq]
    exact hprefix.length_le
  rw [List.length_map] at hcap
  rw [List.length_map, List.length_map, hf.seen, List.length_take, Nat.min_eq_left hle] at hinj
  have hpc : s.sender.pc.rank ≤ 5 := by cases s.sender.pc <;> decide
  have hpc' : s.receiver.pc.rank s.receiver.rd.lenReceived ≤ 11 := by
    unfold ReceivingPc.rank
    split <;> (try split) <;> omega
  have hcons : s.receiver.fifo.cons.rank ≤ 2 := by
    unfold ConsumerPc.rank
    split <;> decide
  unfold rank SendSys.rank ReceiveSys.rank FifoSys.rank FifoSys.pending
  rw [List.length_drop, List.length_drop]
  omega

end RelaySys

/-- Wherever a run has come to, while the connection is up the threads can inject all that was captured, in
at most 22 sections for each frame that is missing and 27 more: no queue that is full and no frame that is
received in part keeps them from it. Whatever `pcap_inject` and the clock are going to give for these frames (`is`), so it
can be, if the clocks read are later than the captures and the lags add up to less than `2 ^ 64` s. -/
theorem relay_drains (n m itemSize : Nat) (block block' : Option (Mem QItem)) (q q' : AqType QItem)
    (hn : 1 ≤ n ∧ n ≤ 65535) (hm : 1 ≤ m ∧ m ≤ 65535) (hq : aqNew block itemSize n = some q)
    (hq' : aqNew block' itemSize m = some q') (sd : SendingData) (lp : Lisa) (hlp : lp.clsvr = .client)
    (rd : ReceivingData) (acts : List RelayAct) (s : RelaySys)
    (h : Path RelaySys.step RelaySys.Carries (RelaySys.init sd q lp rd q') acts s) (hon : s.sender.lp.Online)
    (is : List Injection) (his : is.map Injection.frame = s.captured.drop s.injected.length)
    (hlater : ∀ i ∈ s.injected ++ is, RelaySys.Later i)
    (hfits : (lags ((s.injected ++ is).filterMap Injection.lagCall)).sum < 2 ^ 64 * 1000000000) :
    ∃ more t, (∀ a ∈ more, a.captures = false) ∧ more.length ≤ 22 * (s.captured.length - s.injected.length) + 27 ∧
      Path RelaySys.step RelaySys.Carries s more t ∧ t.injected = s.injected ++ is ∧
      t.injected.map Injection.frame = s.captured := by
  obtain ⟨hrep, hnum⟩ := AqType.Rep.new hn.1 hn.2 hq
  obtain ⟨hrep', hnum'⟩ := AqType.Rep.new hm.1 hm.2 hq'
  have hi : s.Inv n m := RelaySys.Inv.path h (.init hrep hnum hrep' hnum' hlp)
  have hall : (s.injected ++ is).map Injection.frame = s.captured := by
    have hpre := hi.injected_initial
    rw [List.map_append, his, List.prefix_iff_eq_take.1 hpre, List.length_map, List.take_append_drop]
  have hrun : ∀ t : RelaySys, t.Inv n m → t.injected <+: s.injected ++ is → t.aborted = false := by
    intro t ht hpre
    refine ht.running (fun i hi => hlater i (hpre.subset hi)) (Int.lt_of_le_of_lt ?_ hfits)
    exact ((hpre.filterMap _).map _).sublist.sum_le_sum fun d hd => (RelaySys.lags_pos hlater d hd).le
  obtain ⟨more, t, hmore, hlen, hpath, ⟨-, -, htoward⟩, hend⟩ := Path.exists_of_rank
    (G := RelaySys.Carries) (P := fun a => a.captures = false)
    (I := fun t => t.Inv n m ∧ t.sender.lp.Online ∧ RelaySys.Toward (s.injected ++ is) t)
    (E := fun t => t.injected = s.injected ++ is) RelaySys.rank
    (fun u ⟨hu, hon, htoward⟩ hne => by
      obtain ⟨a, t, ha, hG, hs, hon', htoward', hrank⟩ := hu.moves (hrun u hu htoward.injected) htoward hon hne
      exact ⟨a, t, ha, hG, hs, ⟨hu.step hG hs, hon', htoward'⟩, hrank⟩)
    ⟨hi, hon, List.prefix_append .., hall⟩
  exact ⟨more, t, hmore, hlen.trans hi.rank_le, hpath, hend, hend ▸ hall⟩

/-- The frame of `oneFrame` after its length and half of its time stamp were sent, which is going to be injected at 8 s -/
theorem relay_drains_half : ∃ q s,
    aqNew (some (Mem.fill ⟨0, 0, 0, false, Mem.fill 0⟩)) 2536 queueSize = some q ∧
    Path RelaySys.step RelaySys.Carries
      (RelaySys.init ⟨Mem.fill 0, Mem.fill 0, 0, 0, false, none⟩ q
        ⟨3, 0, Mem.fill 0, 0, 0, .connected, .connected, .tcp, .client, false⟩ ⟨Mem.fill 0, Mem.fill 0, 0, 0, 0⟩ q)
      (oneFrame.take 4 ++ [.receive (.recvLen .connected 3)]) s ∧
    s.captured = [⟨5, 0, [0]⟩] ∧ s.injected = [] ∧ s.receiver.stream.length = 1 ∧
    ∃ more t, (∀ a ∈ more, a.captures = false) ∧ more.length ≤ 22 * (s.captured.length - s.injected.length) + 27 ∧
      Path RelaySys.step RelaySys.Carries s more t ∧ t.injected = s.injected ++ [⟨⟨5, 0, [0]⟩, 1, some ⟨8, 0⟩⟩] ∧
      t.injected.map Injection.frame = s.captured := by
  have hlag : ∀ i ∈ [(⟨⟨5, 0, [0]⟩, 1, some ⟨8, 0⟩⟩ : Injection)], RelaySys.Later i := by
    intro i hi c hc
    obtain rfl := List.mem_singleton.1 hi
    obtain rfl : c = ⟨⟨8, 0⟩, ⟨5, 0, true⟩⟩ := (Option.some.inj hc).symm
    decide
  refine ⟨_, _, rfl, .of_run (by decide +kernel), by decide +kernel, List.eq_nil_of_length_eq_zero (by decide +kernel),
    by decide +kernel, ?_⟩
  exact relay_drains queueSize queueSize 2536 (some (Mem.fill ⟨0, 0, 0, false, Mem.fill 0⟩))
    (some (Mem.fill ⟨0, 0, 0, false, Mem.fill 0⟩)) _ _ (by decide) (by decide) rfl rfl _ _ rfl _ _ _
    (.of_run (by decide +kernel)) (by decide +kernel) [⟨⟨5, 0, [0]⟩, 1, some ⟨8, 0⟩⟩] (by decide +kernel)
    hlag (by decide +kernel)

end Injector
end WlanxVms
