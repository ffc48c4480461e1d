import WlanxVms.ArrayQueue
import WlanxVms.Injector.Item
import WlanxVms.Lisa.Send

/-!
# The sender of the cross_injector (`repeat_sending_function` of `ci_queues.c`)

One call is cut at `aq_get_head`, the three `lisa_cast` calls and `aq_used_head`. In between run the
captures into `capture_send_q` and the receive thread, which shares the lisa. `casts` records the
messages passed to `lisa_cast` and `sends` what the sockets took of them.
-/

namespace WlanxVms
namespace Injector

/-- `sending_data_t` -/
structure SendingData where
  len : Mem UInt8
  timestamp : Mem UInt8
  lenProcessed : Nat
  pktProcessed : Nat
  inProcess : Bool
  item : Option Nat

/-- The next section of the call; a failed `assert` and an item that is `NULL` abort. -/
inductive SendingPc where
  | start | len | timestamp | payload | used | aborted
deriving DecidableEq

structure SendSys where
  sd : SendingData
  pc : SendingPc
  fifo : FifoSys QItem
  lp : Lisa
  casts : List (List UInt8)
  sends : List (Int × List UInt8)

inductive SendAct where
  | captureTail
  | capture (sec nsec : UInt64) (data : List UInt8)
  | fetch
  | castLen (outs : List (List SendOutcome))
  | castTimestamp (outs : List (List SendOutcome))
  | castPayload (outs : List (List SendOutcome))
  | usedHead
  | receiveThread (state clientState : LisaState) (clientFd : Int)

/-- `repeat_capturing_function` from the timestamp to the `memcpy`, for a packet `data`. -/
def QItem.capture (x : QItem) (sec nsec : UInt64) (data : List UInt8) : QItem :=
  let size := if data.length < bufferSize then data.length else bufferSize
  { size, sec, nsec, positive := true, buffer := x.buffer.write 0 (data.take size) }

namespace SendingData

/-- `init_sending_function` -/
def init (sd : SendingData) : SendingData :=
  { sd with item := none, lenProcessed := 0, pktProcessed := 0, inProcess := false }

/-- What the end of a packet resets: `item` is not among it. -/
def reset (sd : SendingData) : SendingData :=
  { sd with inProcess := false, lenProcessed := 0, pktProcessed := 0 }

end SendingData

namespace SendSys

def init (sd : SendingData) (q : AqType QItem) (lp : Lisa) : SendSys :=
  { sd := sd.init, pc := .start, fifo := FifoSys.init q, lp, casts := [], sends := [] }

/-- The state check and `aq_get_head`. -/
def fetch (s : SendSys) : SendSys :=
  if s.sd.inProcess then { s with pc := .len }
  else
    let s := if LisaState.connected.code ≤ s.lp.state.code then
      { s with sd := { s.sd with item := aqGetHead s.fifo.q }, fifo := s.fifo.getHead } else s
    if s.sd.item.isSome then { s with sd := { s.sd with inProcess := true }, pc := .len } else s

/-- `lisa_cast`, with what it logs. -/
def cast (s : SendSys) (msg : List UInt8) (outs : List (List SendOutcome)) : Option (SendSys × Int) :=
  (s.lp.lisaCast msg outs).map fun (lp, rc, sends) =>
    ({ s with lp, casts := s.casts ++ [msg], sends := s.sends ++ sends }, rc)

/-- The messages of the three stages, for the item in `slot`. -/
def lenMsg (s : SendSys) (slot : Nat) : List UInt8 :=
  (setLength s.sd.len (s.fifo.q.data slot).size).read s.sd.lenProcessed (4 - s.sd.lenProcessed)

def timestampMsg (s : SendSys) (slot : Nat) : List UInt8 :=
  (setTimestamp s.sd.timestamp (s.fifo.q.data slot).sec (s.fifo.q.data slot).nsec).read
    (s.sd.lenProcessed - 4) (20 - s.sd.lenProcessed)

def payloadMsg (s : SendSys) (slot : Nat) : List UInt8 :=
  (s.fifo.q.data slot).buffer.read s.sd.pktProcessed
    (u32 (((s.fifo.q.data slot).size : Int) - s.sd.pktProcessed))

def castLen (s : SendSys) (slot : Nat) (outs : List (List SendOutcome)) : Option SendSys :=
  if s.sd.lenProcessed < 4 then
    (s.cast (s.lenMsg slot) outs).map fun (t, rc) =>
      { t with sd := { t.sd with len := setLength s.sd.len (s.fifo.q.data slot).size,
                                 lenProcessed := u32 (t.sd.lenProcessed + rc) }, pc := .timestamp }
  else some { s with pc := .timestamp }

def castTimestamp (s : SendSys) (slot : Nat) (outs : List (List SendOutcome)) : Option SendSys :=
  if 4 ≤ s.sd.lenProcessed ∧ s.sd.lenProcessed < 20 then
    (s.cast (s.timestampMsg slot) outs).map fun (t, rc) =>
      { t with sd := { t.sd with timestamp := setTimestamp s.sd.timestamp (s.fifo.q.data slot).sec
                                   (s.fifo.q.data slot).nsec,
                                 lenProcessed := u32 (t.sd.lenProcessed + rc) }, pc := .payload }
  else some { s with pc := .payload }

def castPayload (s : SendSys) (slot : Nat) (outs : List (List SendOutcome)) : Option SendSys :=
  if s.sd.lenProcessed = 20 then
    (s.cast (s.payloadMsg slot) outs).map fun (t, rc) =>
      let pktProcessed := u32 (t.sd.pktProcessed + rc)
      let size := (s.fifo.q.data slot).size
      { t with sd := { t.sd with pktProcessed },
               pc := if ¬pktProcessed ≤ size then .aborted else if pktProcessed = size then .used else .start }
  else some { s with pc := .start }

/-- `aq_used_head` and the resets after it. -/
def usedHead (s : SendSys) (slot : Nat) : SendSys :=
  { s with sd := s.sd.reset, fifo := (s.fifo.use slot).usedHead, pc := .start }

/-- A section that works on the item. -/
def onItem (s : SendSys) (f : Nat → Option SendSys) : Option SendSys :=
  match s.sd.item with
  | none => some { s with pc := .aborted }
  | some slot => f slot

def step (s : SendSys) : SendAct → Option SendSys
  | .captureTail => some { s with fifo := s.fifo.getTail }
  | .capture sec nsec data => s.fifo.prod.map fun slot =>
      { s with fifo := (s.fifo.fill slot ((s.fifo.q.data slot).capture sec nsec data)).putTail slot }
  | .fetch => if s.pc = .start then some s.fetch else none
  | .castLen outs => if s.pc = .len then s.onItem fun slot => s.castLen slot outs else none
  | .castTimestamp outs => if s.pc = .timestamp then s.onItem fun slot => s.castTimestamp slot outs else none
  | .castPayload outs => if s.pc = .payload then s.onItem fun slot => s.castPayload slot outs else none
  | .usedHead => if s.pc = .used then s.onItem fun slot => some (s.usedHead slot) else none
  | .receiveThread state clientState clientFd => some { s with lp := { s.lp with state, clientState, clientFd } }

/-! ### The condition on `fetch`, and the invariant of the runs that meet it -/

/-- A call that has no packet in process finds a connected lisa, or no packet was sent before. -/
def Fresh (s : SendSys) : SendAct → Prop
  | .fetch => s.sd.inProcess = true ∨ LisaState.connected.code ≤ s.lp.state.code ∨ s.sd.item = none
  | _ => True

instance (s : SendSys) : (a : SendAct) → Decidable (Fresh s a)
  | .fetch => inferInstanceAs (Decidable (_ ∨ _ ∨ _))
  | .captureTail | .capture .. | .castLen _ | .castTimestamp _ | .castPayload _ | .usedHead
  | .receiveThread .. => .isTrue trivial

end SendSys

/-- How many messages of the item were cast before a section. -/
def SendingPc.stage : SendingPc → Nat
  | .start => 0
  | .len => 0
  | .timestamp => 1
  | .payload => 2
  | .used => 3
  | .aborted => 0

def SendingPc.lenDone : SendingPc → Nat
  | .start => 0
  | .len => 0
  | .timestamp => 4
  | .payload => 20
  | .used => 20
  | .aborted => 0

namespace SendSys

structure Inv (n : Nat) (s : SendSys) : Prop where
  fifo : s.fifo.Inv n
  small : ∀ x ∈ s.fifo.published, x.size ≤ bufferSize
  running : s.pc ≠ .aborted
  idle : s.pc = .start → s.sd.inProcess = false ∧ s.fifo.cons = .idle
  busy : s.pc ≠ .start → ∃ slot, s.sd.item = some slot ∧ s.fifo.cons = .holding slot
  lenProcessed : s.sd.lenProcessed = s.pc.lenDone
  pktProcessed : s.pc ≠ .used → s.sd.pktProcessed = 0
  pktUsed : s.pc = .used → ∀ slot, s.sd.item = some slot → s.sd.pktProcessed = (s.fifo.q.data slot).size
  casts : s.casts = (s.fifo.published.take s.fifo.released).flatMap QItem.pieces ++
    (s.fifo.pending.flatMap QItem.pieces).take s.pc.stage

variable {n : Nat} {s t : SendSys} {slot : Nat} {msg : List UInt8} {outs : List (List SendOutcome)}

theorem Inv.init {sd : SendingData} {q : AqType QItem} {lp : Lisa} (hq : q.Rep []) (hn : q.numItems = n) :
    (SendSys.init sd q lp).Inv n :=
  ⟨.init hq hn, nofun, nofun, fun _ => ⟨rfl, rfl⟩, fun h => absurd rfl h, rfl, fun _ => rfl, nofun, rfl⟩

theorem Inv.head (h : s.Inv n) (hpc : s.pc ≠ .start) :
    ∃ slot xs, s.sd.item = some slot ∧ s.fifo.cons = .holding slot ∧
      s.fifo.pending = s.fifo.q.data slot :: xs ∧ (s.fifo.q.data slot).size ≤ bufferSize := by
  obtain ⟨slot, hitem, hcons⟩ := h.busy hpc
  obtain ⟨xs, hx⟩ := h.fifo.cell (show s.fifo.consSlot = some slot by simp [FifoSys.consSlot, hcons])
  have hmem : s.fifo.q.data slot ∈ s.fifo.published.drop s.fifo.released := by
    show _ ∈ s.fifo.pending
    rw [hx]; exact List.mem_cons_self
  exact ⟨slot, xs, hitem, hcons, hx, h.small _ (List.mem_of_mem_drop hmem)⟩

theorem Inv.captureTail (h : s.Inv n) : ({ s with fifo := s.fifo.getTail } : SendSys).Inv n :=
  ⟨h.fifo.getTail, h.small, h.running, h.idle, h.busy, h.lenProcessed, h.pktProcessed, h.pktUsed, h.casts⟩

theorem stage_le_three (pc : SendingPc) : pc.stage ≤ 3 := by cases pc <;> decide

theorem length_pieces (x : QItem) : x.pieces.length = 3 := rfl

theorem Inv.capture (h : s.Inv n) (hp : s.fifo.prod = some slot) (x : QItem) (hx : x.size ≤ bufferSize) :
    ({ s with fifo := (s.fifo.fill slot x).putTail slot } : SendSys).Inv n := by
  have hcell : (s.fifo.q.data.set slot x) slot = x := Mem.set_self ..
  have hpub : ((s.fifo.fill slot x).putTail slot).published = s.fifo.published ++ [x] := by
    show s.fifo.published ++ [_] = _
    rw [show (s.fifo.fill slot x).q.data slot = x from hcell]
  refine ⟨(h.fifo.fill hp x).putTail hp, ?_, h.running, h.idle, h.busy, h.lenProcessed, h.pktProcessed,
    fun hpc c hc => ?_, ?_⟩
  · intro y hy
    have hy : y ∈ s.fifo.published ++ [x] := hpub ▸ hy
    rcases List.mem_append.1 hy with hy | hy
    · exact h.small y hy
    · rw [List.mem_singleton.1 hy]; exact hx
  · obtain ⟨c', hitem, hcons⟩ := h.busy (by rw [hpc]; decide)
    have hc' : c' = c := Option.some.inj (hitem.symm.trans hc)
    have hne := h.fifo.slots_ne hp (show s.fifo.consSlot = some c' by simp [FifoSys.consSlot, hcons])
    show _ = (s.fifo.q.data.set slot x c).size
    rw [Mem.set_of_ne _ _ (by rw [← hc']; exact hne.symm)]
    exact h.pktUsed hpc c hc
  · have hrel := h.fifo.released_le
    have hpend : ((s.fifo.fill slot x).putTail slot).pending = s.fifo.pending ++ [x] := by
      show List.drop s.fifo.released _ = _
      rw [hpub, List.drop_append_of_le_length hrel]; rfl
    show s.casts = (((s.fifo.fill slot x).putTail slot).published.take s.fifo.released).flatMap _ ++
      (((s.fifo.fill slot x).putTail slot).pending.flatMap _).take s.pc.stage
    rw [hpub, hpend, List.take_append_of_le_length hrel, List.flatMap_append, h.casts]
    congr 1
    by_cases hpc : s.pc = .start
    · rw [hpc]; rfl
    · obtain ⟨c, xs, -, -, hxs, -⟩ := h.head hpc
      have hle := stage_le_three s.pc
      rw [List.take_append_of_le_length]
      rw [hxs, List.flatMap_cons, List.length_append, length_pieces]
      omega

theorem Inv.fetch (h : s.Inv n) (hpc : s.pc = .start) (hG : Fresh s .fetch) : s.fetch.Inv n := by
  obtain ⟨hip, hcons⟩ := h.idle hpc
  have hlen := h.lenProcessed
  have hpkt := h.pktProcessed (by simp [hpc])
  have hcasts := h.casts
  rw [hpc] at hlen hcasts
  unfold SendSys.fetch
  rw [if_neg (by simp [hip])]
  by_cases hst : LisaState.connected.code ≤ s.lp.state.code
  · rw [if_pos hst]
    have hfifo := h.fifo.getHead hcons
    cases hq : aqGetHead s.fifo.q with
    | none =>
      have hhead : s.fifo.getHead = s.fifo := by unfold FifoSys.getHead; rw [hq]
      rw [hhead]
      exact ⟨h.fifo, h.small, h.running, h.idle, fun hne => absurd hpc hne, h.lenProcessed, h.pktProcessed,
        fun hu => absurd (hpc.symm.trans hu) (by decide), h.casts⟩
    | some slot =>
      have hhead : s.fifo.getHead = { s.fifo with cons := .holding slot } := by unfold FifoSys.getHead; rw [hq]
      rw [hhead] at hfifo ⊢
      exact ⟨hfifo, h.small, nofun, nofun, fun _ => ⟨slot, rfl, rfl⟩, hlen, fun _ => hpkt, nofun, hcasts⟩
  · have hnone : s.sd.item = none := by
      rcases hG with hG | hG | hG
      · rw [hip] at hG; cases hG
      · exact absurd hG hst
      · exact hG
    rw [if_neg hst, if_neg (by simp [hnone])]
    exact h

theorem cast_eq_some {rc : Int} (h : s.cast msg outs = some (t, rc)) :
    ∃ lp sends, s.lp.lisaCast msg outs = some (lp, (msg.length : Int), sends) ∧ rc = msg.length ∧
      t = { s with lp, casts := s.casts ++ [msg], sends := s.sends ++ sends } := by
  obtain ⟨⟨lp, rc, sends⟩, hcast, he⟩ := Option.map_eq_some_iff.1 h
  cases he
  obtain rfl := Lisa.lisaCast_rc hcast
  exact ⟨lp, sends, hcast, rfl, rfl⟩

/-- `t` is `s` after a `lisa_cast` of `msg`, up to the counters and the section. -/
structure Casts (s t : SendSys) (msg : List UInt8) (outs : List (List SendOutcome)) : Prop where
  lp : ∃ sends, s.lp.lisaCast msg outs = some (t.lp, (msg.length : Int), sends) ∧ t.sends = s.sends ++ sends
  casts : t.casts = s.casts ++ [msg]
  fifo : t.fifo = s.fifo
  item : t.sd.item = s.sd.item

theorem Inv.casts_stage (h : s.Inv n) (hc : Casts s t msg outs) {xs : List QItem} (hpc : s.pc ≠ .start)
    (hitem : s.sd.item = some slot) (hx : s.fifo.pending = s.fifo.q.data slot :: xs)
    (hmsg : (s.fifo.q.data slot).pieces[s.pc.stage]? = some msg) (hstage : t.pc.stage = s.pc.stage + 1)
    (hlen : t.sd.lenProcessed = t.pc.lenDone) (hpkt : t.pc ≠ .used → t.sd.pktProcessed = 0)
    (hused : t.pc = .used → t.sd.pktProcessed = (s.fifo.q.data slot).size) : t.Inv n := by
  have hstart : t.pc ≠ .start := by
    intro h0
    rw [h0] at hstage
    exact absurd hstage (Nat.succ_ne_zero _).symm
  have habort : t.pc ≠ .aborted := by
    intro h0
    rw [h0] at hstage
    exact absurd hstage (Nat.succ_ne_zero _).symm
  obtain ⟨c, hc', hcons⟩ := h.busy hpc
  refine ⟨hc.fifo ▸ h.fifo, hc.fifo ▸ h.small, habort, fun h0 => absurd h0 hstart, fun _ => ⟨c, ?_, ?_⟩, hlen, hpkt,
    fun hu c hc' => ?_, ?_⟩
  · rw [hc.item]; exact hc'
  · rw [hc.fifo]; exact hcons
  · rw [hc.item, hitem] at hc'
    cases hc'
    rw [hc.fifo]; exact hused hu
  · obtain ⟨hlt, hget⟩ := List.getElem?_eq_some_iff.1 hmsg
    rw [hc.casts, hc.fifo, h.casts, hx, List.flatMap_cons, List.append_assoc, hstage,
      List.take_append_of_le_length (Nat.le_of_lt hlt), List.take_append_of_le_length hlt,
      List.take_succ_eq_append_getElem hlt, hget]

theorem onItem_eq_some {f : Nat → Option SendSys} (hitem : s.sd.item = some slot) (h : s.onItem f = some t) :
    f slot = some t := by
  unfold onItem at h
  rwa [hitem] at h

theorem Inv.castLen (h : s.Inv n) (hpc : s.pc = .len) (hs : (s.onItem fun slot => s.castLen slot outs) = some t) :
    t.Inv n ∧ ∃ slot, s.sd.item = some slot ∧ Casts s t (s.lenMsg slot) outs := by
  have hne : s.pc ≠ .start := by simp [hpc]
  have hlen := h.lenProcessed
  obtain ⟨slot, xs, hitem, -, hx, -⟩ := h.head hne
  have hs := onItem_eq_some hitem hs
  rw [hpc] at hlen
  unfold SendSys.castLen at hs
  rw [if_pos (show s.sd.lenProcessed < 4 by rw [hlen]; decide)] at hs
  obtain ⟨⟨u, rc⟩, hp, rfl⟩ := Option.map_eq_some_iff.1 hs
  obtain ⟨lp, sends, hcast, rfl, rfl⟩ := cast_eq_some hp
  have hmsg : s.lenMsg slot = beBytes 4 (s.fifo.q.data slot).size := by
    rw [lenMsg, hlen]; exact read_setLength ..
  refine ⟨h.casts_stage ?hc hne hitem hx ?_ ?_ ?_ (fun _ => ?_) nofun, slot, hitem, ?hc⟩
  · exact ⟨⟨sends, hcast, rfl⟩, rfl, rfl, rfl⟩
  · rw [hpc, hmsg]; rfl
  · rw [hpc]; rfl
  · show u32 (s.sd.lenProcessed + ((s.lenMsg slot).length : Int)) = 4
    rw [hmsg, hlen, length_beBytes]; rfl
  · exact h.pktProcessed (by simp [hpc])

theorem Inv.castTimestamp (h : s.Inv n) (hpc : s.pc = .timestamp)
    (hs : (s.onItem fun slot => s.castTimestamp slot outs) = some t) :
    t.Inv n ∧ ∃ slot, s.sd.item = some slot ∧ Casts s t (s.timestampMsg slot) outs := by
  have hne : s.pc ≠ .start := by simp [hpc]
  have hlen := h.lenProcessed
  obtain ⟨slot, xs, hitem, -, hx, -⟩ := h.head hne
  have hs := onItem_eq_some hitem hs
  rw [hpc] at hlen
  unfold SendSys.castTimestamp at hs
  rw [if_pos (by rw [hlen]; decide)] at hs
  obtain ⟨⟨u, rc⟩, hp, rfl⟩ := Option.map_eq_some_iff.1 hs
  obtain ⟨lp, sends, hcast, rfl, rfl⟩ := cast_eq_some hp
  have hmsg : s.timestampMsg slot =
      beBytes 8 (s.fifo.q.data slot).sec.toNat ++ beBytes 8 (s.fifo.q.data slot).nsec.toNat := by
    rw [timestampMsg, hlen]; exact read_setTimestamp ..
  refine ⟨h.casts_stage ?hc hne hitem hx ?_ ?_ ?_ (fun _ => ?_) nofun, slot, hitem, ?hc⟩
  · exact ⟨⟨sends, hcast, rfl⟩, rfl, rfl, rfl⟩
  · rw [hpc, hmsg]; rfl
  · rw [hpc]; rfl
  · show u32 (s.sd.lenProcessed + ((s.timestampMsg slot).length : Int)) = 20
    rw [hmsg, hlen, List.length_append, length_beBytes, length_beBytes]; rfl
  · exact h.pktProcessed (by simp [hpc])

theorem Inv.castPayload (h : s.Inv n) (hpc : s.pc = .payload)
    (hs : (s.onItem fun slot => s.castPayload slot outs) = some t) :
    t.Inv n ∧ ∃ slot, s.sd.item = some slot ∧ Casts s t (s.payloadMsg slot) outs := by
  have hne : s.pc ≠ .start := by simp [hpc]
  have hlen := h.lenProcessed
  have hpkt := h.pktProcessed (by simp [hpc])
  obtain ⟨slot, xs, hitem, -, hx, hsize⟩ := h.head hne
  have hs := onItem_eq_some hitem hs
  rw [hpc] at hlen
  unfold bufferSize at hsize
  unfold SendSys.castPayload at hs
  rw [if_pos (show s.sd.lenProcessed = 20 from hlen)] at hs
  obtain ⟨⟨u, rc⟩, hp, rfl⟩ := Option.map_eq_some_iff.1 hs
  obtain ⟨lp, sends, hcast, rfl, rfl⟩ := cast_eq_some hp
  have hmsg : s.payloadMsg slot = (s.fifo.q.data slot).bytes := by
    rw [payloadMsg, hpkt, u32_sub (Nat.zero_le _) (by omega)]; rfl
  have hdone : u32 ((s.sd.pktProcessed : Int) + (s.payloadMsg slot).length) = (s.fifo.q.data slot).size := by
    rw [hmsg, QItem.length_bytes, hpkt, ← Int.natCast_add, Nat.zero_add, u32_of_lt (by omega)]
  simp only [hdone, Nat.le_refl, not_true_eq_false, if_false, if_true]
  refine ⟨h.casts_stage ?hc hne hitem hx ?_ ?_ ?_ (fun hu => absurd rfl hu) (fun _ => rfl), slot, hitem, ?hc⟩
  · exact ⟨⟨sends, hcast, rfl⟩, rfl, rfl, rfl⟩
  · rw [hpc, hmsg]; rfl
  · rw [hpc]; rfl
  · exact hlen

theorem Inv.usedHead (h : s.Inv n) (hpc : s.pc = .used)
    (hs : (s.onItem fun slot => some (s.usedHead slot)) = some t) :
    t.Inv n ∧ t.casts = s.casts ∧ t.lp = s.lp ∧ t.sends = s.sends := by
  obtain ⟨slot, xs, hitem, hcons, hx, -⟩ := h.head (by simp [hpc])
  cases onItem_eq_some hitem hs
  have hfifo := (h.fifo.use hcons).usedHead rfl
  refine ⟨⟨hfifo, h.small, nofun, fun _ => ⟨rfl, rfl⟩, fun hne => absurd rfl hne, rfl, fun _ => rfl, nofun, ?_⟩, rfl,
    rfl, rfl⟩
  have htake : s.fifo.published.take (s.fifo.released + 1) =
      s.fifo.published.take s.fifo.released ++ [s.fifo.q.data slot] := by
    rw [List.take_add]
    show _ ++ s.fifo.pending.take 1 = _
    rw [hx]; rfl
  show s.casts = (s.fifo.published.take (s.fifo.released + 1)).flatMap _ ++ _
  rw [h.casts, hpc, hx, htake, List.flatMap_append, List.flatMap_cons]
  show _ ++ ((s.fifo.q.data slot).pieces ++ _).take 3 = _
  rw [List.take_left' (length_pieces _)]
  simp [SendSys.usedHead, SendingPc.stage]

theorem Inv.receiveThread (h : s.Inv n) (lp : Lisa) : ({ s with lp } : SendSys).Inv n :=
  ⟨h.fifo, h.small, h.running, h.idle, h.busy, h.lenProcessed, h.pktProcessed, h.pktUsed, h.casts⟩

theorem size_capture (x : QItem) (sec nsec : UInt64) (data : List UInt8) :
    (x.capture sec nsec data).size ≤ bufferSize := by
  show (if data.length < bufferSize then data.length else bufferSize) ≤ bufferSize
  split <;> omega

theorem Inv.step {a : SendAct} (h : s.Inv n) (hG : Fresh s a) (hs : s.step a = some t) : t.Inv n := by
  cases a with
  | captureTail => cases hs; exact h.captureTail
  | capture sec nsec data =>
    obtain ⟨slot, hp, rfl⟩ := Option.map_eq_some_iff.1 hs
    exact h.capture hp _ (size_capture ..)
  | fetch =>
    obtain ⟨hpc, hs⟩ := Option.ite_none_right_eq_some.1 hs
    cases hs
    exact h.fetch hpc hG
  | castLen outs =>
    obtain ⟨hpc, hs⟩ := Option.ite_none_right_eq_some.1 hs
    exact (h.castLen hpc hs).1
  | castTimestamp outs =>
    obtain ⟨hpc, hs⟩ := Option.ite_none_right_eq_some.1 hs
    exact (h.castTimestamp hpc hs).1
  | castPayload outs =>
    obtain ⟨hpc, hs⟩ := Option.ite_none_right_eq_some.1 hs
    exact (h.castPayload hpc hs).1
  | usedHead =>
    obtain ⟨hpc, hs⟩ := Option.ite_none_right_eq_some.1 hs
    exact (h.usedHead hpc hs).1
  | receiveThread state clientState clientFd => cases hs; exact h.receiveThread _

theorem Inv.path {acts : List SendAct} (hp : Path SendSys.step Fresh s acts t) (h : s.Inv n) : t.Inv n :=
  hp.invariant (SendSys.Inv n) (fun _ _ _ hi hG hs => hi.step hG hs) h

/-! ### The queue is consumed once for each item -/

/-- The queue still is a queue, `aq_used_head` is called only for the slot at its head, the items
whose slots were given back are the first ones captured, and these were passed to `lisa_cast` once
each and in their order, followed by the first messages of the item in process. -/
structure ConsumesOnce (s : SendSys) : Prop where
  rep : s.fifo.q.Rep s.fifo.pending
  head : s.pc = .used → s.fifo.pending ≠ [] ∧ aqGetHead s.fifo.q = s.sd.item
  seen : s.fifo.seen = s.fifo.published.take s.fifo.released
  casts : s.casts = (s.fifo.published.take s.fifo.released).flatMap QItem.pieces ++
    (s.fifo.pending.flatMap QItem.pieces).take s.pc.stage

theorem Inv.consumesOnce (h : s.Inv n) : s.ConsumesOnce := by
  refine ⟨h.fifo.rep, fun hpc => ?_, ?_, h.casts⟩
  · obtain ⟨slot, hitem, hcons⟩ := h.busy (by simp [hpc])
    obtain ⟨rfl, hne⟩ := h.fifo.cons slot (by simp [FifoSys.consSlot, hcons])
    refine ⟨hne, ?_⟩
    cases hq : aqGetHead s.fifo.q with
    | none => exact absurd (h.fifo.rep.getHead_eq_none.1 hq) hne
    | some c => rw [(h.fifo.rep.getHead_eq_some hq).1, hitem]
  · have hseen := h.fifo.seen
    by_cases hpc : s.pc = .start
    · rw [FifoSys.numSeen, (h.idle hpc).2] at hseen
      exact hseen
    · obtain ⟨slot, -, hcons⟩ := h.busy hpc
      rw [FifoSys.numSeen, hcons] at hseen
      exact hseen

end SendSys

/-- A sender that finds a connected lisa, or has sent nothing yet, at each call consumes its queue
once for each item. Otherwise it sends the item of the last call again: `item` is not reset. -/
theorem sender_consumesOnce (n itemSize : Nat) (block : Option (Mem QItem)) (q : AqType QItem)
    (hn : 1 ≤ n) (hn' : n ≤ 65535) (hq : aqNew block itemSize n = some q) (sd : SendingData) (lp : Lisa)
    (acts : List SendAct) (s : SendSys)
    (h : Path SendSys.step SendSys.Fresh (SendSys.init sd q lp) acts s) : s.ConsumesOnce := by
  obtain ⟨hrep, hnum⟩ := AqType.Rep.new hn hn' hq
  exact (SendSys.Inv.path h (.init hrep hnum)).consumesOnce

/-- One item, captured and sent on a lisa that stays connected. -/
theorem sender_consumesOnce_one : ∃ q s,
    aqNew (some (Mem.fill ⟨0, 0, 0, false, Mem.fill 0⟩)) 2536 queueSize = some q ∧
    Path SendSys.step SendSys.Fresh
      (SendSys.init ⟨Mem.fill 0, Mem.fill 0, 0, 0, false, none⟩ q
        ⟨3, 0, Mem.fill 0, 0, 0, .connected, .connected, .tcp, .client, false⟩)
      [.captureTail, .capture 5 7 [9], .fetch, .castLen [[.sends 4]], .castTimestamp [[.sends 16]],
        .castPayload [[.sends 1]], .usedHead] s ∧
    s.fifo.pending.length = 0 ∧ s.casts.length = 3 ∧ s.ConsumesOnce := by
  refine ⟨_, _, rfl, .of_run (by decide +kernel), by decide +kernel, by decide +kernel, ?_⟩
  exact sender_consumesOnce queueSize 2536 (some (Mem.fill ⟨0, 0, 0, false, Mem.fill 0⟩)) _ (by decide) (by decide) rfl
    _ _ _ _ (.of_run (by decide +kernel))

/-- After that item the receive thread finds the connection lost. The next call sends the item once
more and is about to call `aq_used_head` on the empty queue. -/
theorem not_consumesOnce : ¬ ∀ (n itemSize : Nat) (block : Option (Mem QItem)) (q : AqType QItem), 1 ≤ n → n ≤ 65535 →
    aqNew block itemSize n = some q → ∀ (sd : SendingData) (lp : Lisa) (acts : List SendAct) (s : SendSys),
    Path SendSys.step AnyStep (SendSys.init sd q lp) acts s → s.ConsumesOnce := by
  intro h
  have hbad := h queueSize 2536 (some (Mem.fill ⟨0, 0, 0, false, Mem.fill 0⟩)) _ (by decide) (by decide) rfl
    ⟨Mem.fill 0, Mem.fill 0, 0, 0, false, none⟩
    ⟨3, 0, Mem.fill 0, 0, 0, .connected, .connected, .tcp, .client, false⟩
    [.captureTail, .capture 5 7 [9], .fetch, .castLen [[.sends 4]], .castTimestamp [[.sends 16]],
      .castPayload [[.sends 1]], .usedHead, .receiveThread .error .error 0,
      .fetch, .castLen [[]], .castTimestamp [[]], .castPayload [[]]] _ (.of_run (by decide +kernel))
  obtain ⟨hne, -⟩ := hbad.head (by decide +kernel)
  exact hne (List.eq_nil_of_length_eq_zero (by decide +kernel))

/-! ### What the socket took -/

namespace SendSys
variable {n : Nat} {s t : SendSys} {msg : List UInt8} {outs : List (List SendOutcome)}

/-- The bytes that the socket of a client lisa took. -/
def onSocket (s : SendSys) : List UInt8 := ((s.sends.filter fun p => p.1 = s.lp.fd).map Prod.snd).flatten

/-- The lisa does not refuse the message, no `select` or `send` fails, and the socket takes as many
bytes as the message has. -/
def takesAll (l : Lisa) (msg : List UInt8) (outs : List (List SendOutcome)) : Bool :=
  msg = [] ∨ LisaState.connected.code ≤ l.state.code ∧ outs.flatten.all SendOutcome.ok ∧
    (outs.flatten.map SendOutcome.accepted).sum = msg.length

/-- Every message is taken as a whole, and the calls are `Fresh`. -/
def AllTaken (s : SendSys) : SendAct → Prop
  | .castLen outs => s.sd.item.all (fun slot => takesAll s.lp (s.lenMsg slot) outs) = true
  | .castTimestamp outs => s.sd.item.all (fun slot => takesAll s.lp (s.timestampMsg slot) outs) = true
  | .castPayload outs => s.sd.item.all (fun slot => takesAll s.lp (s.payloadMsg slot) outs) = true
  | a => Fresh s a

instance (s : SendSys) : (a : SendAct) → Decidable (AllTaken s a)
  | .castLen _ | .castTimestamp _ | .castPayload _ => inferInstanceAs (Decidable (_ = true))
  | .fetch => inferInstanceAs (Decidable (Fresh s .fetch))
  | .captureTail | .capture .. | .usedHead | .receiveThread .. => .isTrue trivial

/-- The socket got the frames of the items given back, then as many bytes of the next frame as the
counters say, and before `aq_used_head` all of it. -/
structure FramesCounted (s : SendSys) : Prop where
  onSocket : s.onSocket = wire (s.fifo.published.take s.fifo.released) ++
    (wire s.fifo.pending).take (s.sd.lenProcessed + s.sd.pktProcessed)
  inWire : s.sd.lenProcessed + s.sd.pktProcessed ≤ (wire s.fifo.pending).length
  last : s.pc = .used → ∀ x ∈ s.fifo.pending.head?, s.sd.lenProcessed + s.sd.pktProcessed = 20 + x.size
  initial : s.onSocket <+: wire s.fifo.published

theorem takesAll_took {l l' : Lisa} {o : List SendOutcome} {rc : Int} {took : List UInt8} (hlen : msg.length < 2 ^ 32)
    (hall : takesAll l msg [o] = true) (h : l.lisaSend msg o = some (l', rc, took)) : took = msg := by
  rcases of_decide_eq_true hall with rfl | ⟨hst, hok, hsum⟩
  · exact Lisa.lisaSend_nil h
  · have hpre : l.sendPre ≠ none := by
      unfold Lisa.sendPre
      rw [if_neg (Int.not_lt.2 hst)]
      nofun
    obtain ⟨c, hpre⟩ := Option.ne_none_iff_exists'.1 hpre
    rw [Lisa.lisaSend, hpre] at h
    obtain ⟨r, hbody, hr⟩ := Option.map_eq_some_iff.1 h
    cases hr
    rw [List.flatten_singleton] at hok hsum
    exact Lisa.sendBody_took hlen hok hsum hbody

theorem Casts.onSocket (hc : Casts s t msg outs) (hcl : s.lp.clsvr = .client) (hlen : msg.length < 2 ^ 32)
    (hall : takesAll s.lp msg outs = true) : t.lp.clsvr = .client ∧ t.onSocket = s.onSocket ++ msg := by
  obtain ⟨sends, hcast, hsends⟩ := hc.lp
  obtain ⟨hfd, hcl', o, rc, took, rfl, hsend, rfl⟩ := Lisa.lisaCast_client hcl hcast
  have htook := takesAll_took hlen hall hsend
  refine ⟨hcl', ?_⟩
  rw [SendSys.onSocket, hsends, hfd, htook]
  simp [SendSys.onSocket]

theorem length_lenMsg_lt (s : SendSys) (slot : Nat) : (s.lenMsg slot).length < 2 ^ 32 := by
  rw [lenMsg, Mem.length_read]; omega

theorem length_timestampMsg_lt (s : SendSys) (slot : Nat) : (s.timestampMsg slot).length < 2 ^ 32 := by
  rw [timestampMsg, Mem.length_read]; omega

theorem length_payloadMsg_lt (s : SendSys) (slot : Nat) : (s.payloadMsg slot).length < 2 ^ 32 := by
  rw [payloadMsg, Mem.length_read]; unfold u32; omega

/-- All messages cast so far are on the socket. -/
structure Taken (n : Nat) (s : SendSys) : Prop where
  inv : s.Inv n
  client : s.lp.clsvr = .client
  onSocket : s.onSocket = s.casts.flatten

theorem Taken.casts (h : s.Taken n) (ht : t.Inv n) (hc : Casts s t msg outs) (hlen : msg.length < 2 ^ 32)
    (hall : takesAll s.lp msg outs = true) : t.Taken n := by
  obtain ⟨hcl, hsock⟩ := hc.onSocket h.client hlen hall
  refine ⟨ht, hcl, ?_⟩
  rw [hsock, h.onSocket, hc.casts, List.flatten_append, List.flatten_singleton]

theorem fetch_frame (s : SendSys) : s.fetch.lp = s.lp ∧ s.fetch.casts = s.casts ∧ s.fetch.sends = s.sends := by
  unfold SendSys.fetch
  split
  · exact ⟨rfl, rfl, rfl⟩
  · by_cases hst : LisaState.connected.code ≤ s.lp.state.code
    · simp only [if_pos hst]
      split <;> exact ⟨rfl, rfl, rfl⟩
    · simp only [if_neg hst]
      split <;> exact ⟨rfl, rfl, rfl⟩

theorem Taken.of_frame (h : s.Taken n) (ht : t.Inv n) (hfd : t.lp.fd = s.lp.fd) (hcl : t.lp.clsvr = s.lp.clsvr)
    (hcasts : t.casts = s.casts) (hsends : t.sends = s.sends) : t.Taken n := by
  refine ⟨ht, hcl.trans h.client, ?_⟩
  rw [SendSys.onSocket, hsends, hfd, hcasts]
  exact h.onSocket

theorem Taken.step {a : SendAct} (h : s.Taken n) (hG : AllTaken s a) (hs : s.step a = some t) : t.Taken n := by
  cases a with
  | captureTail =>
    cases hs
    exact h.of_frame h.inv.captureTail rfl rfl rfl rfl
  | capture sec nsec data =>
    have ht := h.inv.step (show Fresh s (.capture sec nsec data) from trivial) hs
    obtain ⟨slot, -, rfl⟩ := Option.map_eq_some_iff.1 hs
    exact h.of_frame ht rfl rfl rfl rfl
  | fetch =>
    have ht := h.inv.step (show Fresh s .fetch from hG) hs
    obtain ⟨-, hs⟩ := Option.ite_none_right_eq_some.1 hs
    cases hs
    obtain ⟨hlp, hcasts, hsends⟩ := fetch_frame s
    exact h.of_frame ht (by rw [hlp]) (by rw [hlp]) hcasts hsends
  | castLen outs =>
    obtain ⟨hpc, hs⟩ := Option.ite_none_right_eq_some.1 hs
    obtain ⟨ht, slot, hitem, hc⟩ := h.inv.castLen hpc hs
    unfold AllTaken at hG
    rw [hitem] at hG
    exact h.casts ht hc (length_lenMsg_lt s slot) hG
  | castTimestamp outs =>
    obtain ⟨hpc, hs⟩ := Option.ite_none_right_eq_some.1 hs
    obtain ⟨ht, slot, hitem, hc⟩ := h.inv.castTimestamp hpc hs
    unfold AllTaken at hG
    rw [hitem] at hG
    exact h.casts ht hc (length_timestampMsg_lt s slot) hG
  | castPayload outs =>
    obtain ⟨hpc, hs⟩ := Option.ite_none_right_eq_some.1 hs
    obtain ⟨ht, slot, hitem, hc⟩ := h.inv.castPayload hpc hs
    unfold AllTaken at hG
    rw [hitem] at hG
    exact h.casts ht hc (length_payloadMsg_lt s slot) hG
  | usedHead =>
    obtain ⟨hpc, hs⟩ := Option.ite_none_right_eq_some.1 hs
    obtain ⟨ht, hcasts, hlp, hsends⟩ := h.inv.usedHead hpc hs
    exact h.of_frame ht (by rw [hlp]) (by rw [hlp]) hcasts hsends
  | receiveThread state clientState clientFd =>
    cases hs
    exact h.of_frame (h.inv.receiveThread _) rfl rfl rfl rfl

theorem Taken.path {acts : List SendAct} (hp : Path SendSys.step AllTaken s acts t) (h : s.Taken n) : t.Taken n :=
  hp.invariant (SendSys.Taken n) (fun _ _ _ hi hG hs => hi.step hG hs) h

/-- The messages cast of the item in process are as many bytes of its frame as the counters say. -/
theorem Inv.flatten_stage (h : s.Inv n) :
    ((s.fifo.pending.flatMap QItem.pieces).take s.pc.stage).flatten =
      (wire s.fifo.pending).take (s.sd.lenProcessed + s.sd.pktProcessed) ∧
    s.sd.lenProcessed + s.sd.pktProcessed ≤ (wire s.fifo.pending).length ∧
    (s.pc = .used → ∀ x ∈ s.fifo.pending.head?, s.sd.lenProcessed + s.sd.pktProcessed = 20 + x.size) := by
  have hlen := h.lenProcessed
  by_cases hstart : s.pc = .start
  · rw [hstart] at hlen
    rw [hlen, h.pktProcessed (by simp [hstart]), hstart]
    exact ⟨rfl, Nat.zero_le _, nofun⟩
  · obtain ⟨slot, xs, hitem, -, hx, -⟩ := h.head hstart
    have hle := le_length_wire (s.fifo.q.data slot) xs
    have hpieces : (s.fifo.pending.flatMap QItem.pieces).take s.pc.stage =
        (s.fifo.q.data slot).pieces.take s.pc.stage := by
      rw [hx, List.flatMap_cons, List.take_append_of_le_length (stage_le_three _)]
    rw [hpieces, hx]
    cases hpc : s.pc with
    | start => exact absurd hpc hstart
    | aborted => exact absurd hpc h.running
    | len =>
      rw [hpc] at hlen
      rw [hlen, h.pktProcessed (by simp [hpc])]
      exact ⟨rfl, Nat.zero_le _, nofun⟩
    | timestamp =>
      rw [hpc] at hlen
      rw [hlen, h.pktProcessed (by simp [hpc])]
      refine ⟨?_, by show 4 + 0 ≤ _; omega, fun hused => ?_⟩
      · show _ = (wire _).take 4
        rw [take_wire_four]
        simp [SendingPc.stage, QItem.pieces]
      · cases hused
    | payload =>
      rw [hpc] at hlen
      rw [hlen, h.pktProcessed (by simp [hpc])]
      refine ⟨?_, by show 20 + 0 ≤ _; omega, fun hused => ?_⟩
      · show _ = (wire _).take 20
        rw [take_wire_header]
        simp [SendingPc.stage, QItem.pieces, QItem.header]
      · cases hused
    | used =>
      rw [hpc] at hlen
      rw [hlen, h.pktUsed hpc slot hitem]
      refine ⟨?_, hle, fun _ x hx' => ?_⟩
      · show _ = (wire _).take (20 + _)
        rw [take_wire_encode, ← QItem.flatten_pieces]
        rfl
      · cases hx'; rfl

theorem Taken.framesCounted (h : s.Taken n) : s.FramesCounted := by
  obtain ⟨hflat, hle, hused⟩ := h.inv.flatten_stage
  have hsock : s.onSocket = wire (s.fifo.published.take s.fifo.released) ++
      (wire s.fifo.pending).take (s.sd.lenProcessed + s.sd.pktProcessed) := by
    rw [h.onSocket, h.inv.casts, List.flatten_append, flatten_flatMap_pieces, hflat]
  refine ⟨hsock, hle, hused, ?_⟩
  have hwire : wire s.fifo.published = wire (s.fifo.published.take s.fifo.released) ++ wire s.fifo.pending := by
    rw [← wire_append, FifoSys.pending, List.take_append_drop]
  rw [hsock, hwire]
  exact (List.prefix_append_right_inj _).2 (List.take_prefix ..)

end SendSys

/-- On a client lisa whose socket takes every message as a whole, a frame is counted as sent when
the socket has it. The counters advance by the length of the message otherwise too. -/
theorem sender_framesCounted (n itemSize : Nat) (block : Option (Mem QItem)) (q : AqType QItem)
    (hn : 1 ≤ n) (hn' : n ≤ 65535) (hq : aqNew block itemSize n = some q) (sd : SendingData) (lp : Lisa)
    (hlp : lp.clsvr = .client) (acts : List SendAct) (s : SendSys)
    (h : Path SendSys.step SendSys.AllTaken (SendSys.init sd q lp) acts s) : s.FramesCounted := by
  obtain ⟨hrep, hnum⟩ := AqType.Rep.new hn hn' hq
  exact (SendSys.Taken.path h ⟨.init hrep hnum, hlp, rfl⟩).framesCounted

/-- The length goes out in two parts, with a `select` that is interrupted in between. -/
theorem sender_framesCounted_one : ∃ q s,
    aqNew (some (Mem.fill ⟨0, 0, 0, false, Mem.fill 0⟩)) 2536 queueSize = some q ∧
    Path SendSys.step SendSys.AllTaken
      (SendSys.init ⟨Mem.fill 0, Mem.fill 0, 0, 0, false, none⟩ q
        ⟨3, 0, Mem.fill 0, 0, 0, .connected, .connected, .tcp, .client, false⟩)
      [.captureTail, .capture 5 7 [9], .fetch, .castLen [[.sends 3, .notReady, .sends 1]]] s ∧
    s.onSocket = [0, 0, 0, 1] ∧ s.FramesCounted := by
  refine ⟨_, _, rfl, .of_run (by decide +kernel), by decide +kernel, ?_⟩
  exact sender_framesCounted queueSize 2536 (some (Mem.fill ⟨0, 0, 0, false, Mem.fill 0⟩)) _ (by decide) (by decide) rfl
    _ _ rfl _ _ (.of_run (by decide +kernel))

/-- The connection is lost after `aq_get_head`: `lisa_send` refuses the length and returns `-1`, but
`len_processed` advances by the 4 bytes of the message. -/
theorem not_framesCounted : ¬ ∀ (n itemSize : Nat) (block : Option (Mem QItem)) (q : AqType QItem), 1 ≤ n → n ≤ 65535 →
    aqNew block itemSize n = some q → ∀ (sd : SendingData) (lp : Lisa), lp.clsvr = .client →
    ∀ (acts : List SendAct) (s : SendSys), Path SendSys.step AnyStep (SendSys.init sd q lp) acts s →
    s.FramesCounted := by
  intro h
  have hbad := h queueSize 2536 (some (Mem.fill ⟨0, 0, 0, false, Mem.fill 0⟩)) _ (by decide) (by decide) rfl
    ⟨Mem.fill 0, Mem.fill 0, 0, 0, false, none⟩
    ⟨3, 0, Mem.fill 0, 0, 0, .connected, .connected, .tcp, .client, false⟩ rfl
    [.captureTail, .capture 5 7 [9], .fetch, .receiveThread .error .error 0, .castLen [[]]] _
    (.of_run (by decide +kernel))
  have hnone := hbad.onSocket
  revert hnone
  decide +kernel

end Injector
end WlanxVms
