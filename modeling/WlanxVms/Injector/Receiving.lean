import Mathlib.Data.List.Forall2
import WlanxVms.ArrayQueue
import WlanxVms.Injector.Item
import WlanxVms.Lisa

/-!
# The receiver of the cross_injector (`repeat_receiving_function` of `ci_queues.c`)

One call is cut where it touches what it shares: the three `lisa_recv` calls, `aq_get_tail` and
`aq_put_tail`. Between any two of these sections the consumer of `receive_inject_q` may run.
`rd->item` is the slot that the producer side of the queue holds (`FifoSys.prod`). The other end of
the connection is the list of the bytes that are still to be delivered.
-/

namespace WlanxVms
namespace Injector

/-- `receiving_data_t` -/
structure ReceivingData where
  len : Mem UInt8
  timestamp : Mem UInt8
  bytesReceived : Nat
  bytesToReceive : Nat
  lenReceived : Int

/-- The next section of the call. A failed `assert` aborts; a `lisa_recv` below the start of its
array is out of bounds. -/
inductive ReceivingPc where
  | start | timestamp | tail | payload | put | aborted | outOfBounds
deriving DecidableEq

structure ReceiveSys where
  rd : ReceivingData
  pc : ReceivingPc
  fifo : FifoSys QItem
  stream : List UInt8

inductive ReceiveAct where
  | recvLen (state : LisaState) (r : Int)
  | recvTimestamp (r : Int)
  | getTail
  | recvPayload (r : Int)
  | putTail
  | getHead
  | use
  | usedHead

/-- `lisa_recv` with the result `r`: the bytes delivered and those that are left. -/
def lisaRecv (stream : List UInt8) (request : Nat) (r : Int) : Option (List UInt8 × List UInt8) :=
  if r = -1 then some ([], stream)
  else if 0 ≤ r ∧ r.toNat ≤ request ∧ r.toNat ≤ stream.length then
    some (stream.take r.toNat, stream.drop r.toNat)
  else none

/-- `get_timestamp` into an item. -/
def QItem.getTimestamp (x : QItem) (timestamp : Mem UInt8) : QItem :=
  let (sec, nsec) := WlanxVms.getTimestamp timestamp
  { x with sec, nsec, positive := true }

namespace ReceivingData

/-- `init_receiving_function` -/
def init (rd : ReceivingData) : ReceivingData :=
  { rd with bytesReceived := 0, bytesToReceive := 0, lenReceived := 0 }

/-- `if (rd->len_received == 4) rd->bytes_to_receive = get_length(rd->len)` -/
def readLength (rd : ReceivingData) : ReceivingData :=
  if rd.lenReceived = 4 then { rd with bytesToReceive := getLength rd.len } else rd

end ReceivingData

namespace ReceiveSys

def init (rd : ReceivingData) (q : AqType QItem) (stream : List UInt8) : ReceiveSys :=
  { rd := rd.init, pc := .start, fifo := FifoSys.init q, stream }

def recvLen (s : ReceiveSys) (state : LisaState) (r : Int) : Option ReceiveSys :=
  if state.code < LisaState.connected.code then some s
  else if s.rd.lenReceived < 4 then
    if s.rd.lenReceived < 0 then some { s with pc := .outOfBounds }
    else (lisaRecv s.stream (4 - s.rd.lenReceived).toNat r).map fun (bs, stream) =>
      let rd := { s.rd with len := s.rd.len.write s.rd.lenReceived.toNat bs,
                            lenReceived := s.rd.lenReceived + r }
      { s with rd := rd.readLength, stream, pc := .timestamp }
  else some { s with rd := s.rd.readLength, pc := .timestamp }

def recvTimestamp (s : ReceiveSys) (r : Int) : Option ReceiveSys :=
  if 4 ≤ s.rd.lenReceived ∧ s.rd.lenReceived < 20 then
    (lisaRecv s.stream (20 - s.rd.lenReceived).toNat r).map fun (bs, stream) =>
      let rd := { s.rd with timestamp := s.rd.timestamp.write (s.rd.lenReceived - 4).toNat bs,
                            lenReceived := s.rd.lenReceived + r }
      { s with rd, stream, pc := .tail }
  else some { s with pc := .tail }

/-- With a full queue the call returns. -/
def getTail (s : ReceiveSys) : ReceiveSys :=
  if s.rd.lenReceived = 20 then
    let fifo := s.fifo.getTail
    match fifo.prod with
    | none => { s with fifo, pc := .start }
    | some slot =>
      { s with fifo := fifo.fill slot ((fifo.q.data slot).getTimestamp s.rd.timestamp), pc := .payload }
  else { s with pc := .payload }

/-- The call after the payload was read. -/
def payloadPc (rd : ReceivingData) : ReceivingPc :=
  if ¬rd.bytesReceived ≤ rd.bytesToReceive then .aborted
  else if rd.bytesReceived = rd.bytesToReceive then .put
  else .start

/-- What `lisa_recv` into the item in `slot` does; `r` is its result and `bs` are the bytes read. -/
def takePayload (s : ReceiveSys) (slot : Nat) (r : Int) (bs stream : List UInt8) : ReceiveSys :=
  let item := { s.fifo.q.data slot with
    size := s.rd.bytesToReceive, buffer := (s.fifo.q.data slot).buffer.write s.rd.bytesReceived bs }
  let rd := { s.rd with bytesReceived := u32 (s.rd.bytesReceived + r) }
  { s with rd, stream, fifo := s.fifo.fill slot item, pc := payloadPc rd }

def recvPayload (s : ReceiveSys) (r : Int) : Option ReceiveSys :=
  if 20 ≤ s.rd.lenReceived then
    match s.fifo.prod with
    | none => some { s with pc := .start }
    | some slot =>
      if s.rd.bytesToReceive ≤ bufferSize then
        (lisaRecv s.stream (u32 ((s.rd.bytesToReceive : Int) - s.rd.bytesReceived)) r).map fun (bs, stream) =>
          s.takePayload slot r bs stream
      else some { s with pc := .aborted }
  else some { s with pc := .start }

def putTail (s : ReceiveSys) : Option ReceiveSys :=
  s.fifo.prod.map fun slot => { s with rd := s.rd.init, fifo := s.fifo.putTail slot, pc := .start }

def step (s : ReceiveSys) : ReceiveAct → Option ReceiveSys
  | .recvLen state r => if s.pc = .start then s.recvLen state r else none
  | .recvTimestamp r => if s.pc = .timestamp then s.recvTimestamp r else none
  | .getTail => if s.pc = .tail then some s.getTail else none
  | .recvPayload r => if s.pc = .payload then s.recvPayload r else none
  | .putTail => if s.pc = .put then s.putTail else none
  | .getHead => (s.fifo.step .getHead).map fun fifo => { s with fifo }
  | .use => (s.fifo.step .use).map fun fifo => { s with fifo }
  | .usedHead => (s.fifo.step .usedHead).map fun fifo => { s with fifo }

/-- The actions in which `lisa_recv` does not fail. -/
def Delivers (_ : ReceiveSys) : ReceiveAct → Prop
  | .recvLen _ r => 0 ≤ r
  | .recvTimestamp r => 0 ≤ r
  | .recvPayload r => 0 ≤ r
  | _ => True

instance (s : ReceiveSys) : (a : ReceiveAct) → Decidable (Delivers s a)
  | .recvLen _ r => inferInstanceAs (Decidable (0 ≤ r))
  | .recvTimestamp r => inferInstanceAs (Decidable (0 ≤ r))
  | .recvPayload r => inferInstanceAs (Decidable (0 ≤ r))
  | .getTail => .isTrue trivial
  | .putTail => .isTrue trivial
  | .getHead => .isTrue trivial
  | .use => .isTrue trivial
  | .usedHead => .isTrue trivial

/-! ### Where the receiver is in a frame -/

/-- The next frame on the wire is that of the first item of `rest`; of its header `L` bytes and of
its payload `B` bytes have arrived. -/
structure Reading (rest : List QItem) (L B : Nat) (s : ReceiveSys) : Prop where
  small : ∀ x ∈ rest, x.size ≤ bufferSize
  lenReceived : s.rd.lenReceived = L
  bytesReceived : s.rd.bytesReceived = B
  le : L ≤ 20
  header_first : L < 20 → B = 0
  stream : s.stream = (wire rest).drop (L + B)
  inWire : L + B ≤ (wire rest).length
  len : s.rd.len.read 0 (min L 4) = (wire rest).take (min L 4)
  timestamp : s.rd.timestamp.read 0 (L - 4) = ((wire rest).drop 4).take (L - 4)
  toReceive : 4 < L ∨ L = 4 ∧ s.pc ≠ .start → ∀ x ∈ rest.head?, s.rd.bytesToReceive = x.size
  payload : 0 < B → ∃ slot, s.fifo.prod = some slot ∧
    (s.fifo.q.data slot).buffer.read 0 B = ((wire rest).drop 20).take B

/-- Less than the whole payload has arrived. -/
def Unfinished (rest : List QItem) (B : Nat) : Prop := B = 0 ∨ ∀ x ∈ rest.head?, B < x.size

/-- What holds at the sections of the call besides `Reading`. -/
structure AtPc (rest : List QItem) (L B : Nat) (s : ReceiveSys) : Prop where
  running : s.pc ≠ .aborted ∧ s.pc ≠ .outOfBounds
  unfinished : s.pc ≠ .put → Unfinished rest B
  payload : s.pc = .payload → L = 20 → ∃ slot, s.fifo.prod = some slot ∧ ∀ x ∈ rest.head?,
    (s.fifo.q.data slot).sec = x.sec ∧ (s.fifo.q.data slot).nsec = x.nsec ∧ (s.fifo.q.data slot).positive = true
  put : s.pc = .put → L = 20 ∧ ∃ slot, s.fifo.prod = some slot ∧
    ∀ x ∈ rest.head?, B = x.size ∧ (s.fifo.q.data slot).Same x

variable {n L B : Nat} {items rest : List QItem} {s t : ReceiveSys} {state : LisaState} {r : Int}

theorem AtPc.of_unfinished (hu : Unfinished rest B) (hpc : s.pc = .start ∨ s.pc = .timestamp ∨ s.pc = .tail) :
    AtPc rest L B s := by
  refine ⟨?_, fun _ => hu, fun h => ?_, fun h => ?_⟩
  · rcases hpc with h | h | h <;> rw [h] <;> decide
  · rcases hpc with h' | h' | h' <;> cases h'.symm.trans h
  · rcases hpc with h' | h' | h' <;> cases h'.symm.trans h

theorem Reading.exists_cons (h : Reading rest L B s) (hL : 0 < L) : ∃ x xs, rest = x :: xs := by
  cases rest with
  | nil => have := h.inWire; simp [wire] at this; omega
  | cons x xs => exact ⟨x, xs, rfl⟩

theorem lisaRecv_eq_some {stream : List UInt8} {request : Nat} {p : List UInt8 × List UInt8} (hr : 0 ≤ r)
    (h : lisaRecv stream request r = some p) :
    ∃ k : Nat, r = k ∧ k ≤ request ∧ k ≤ stream.length ∧ p = (stream.take k, stream.drop k) := by
  unfold lisaRecv at h
  rw [if_neg (by omega)] at h
  split at h
  · next hk => exact ⟨r.toNat, by omega, hk.2.1, hk.2.2, (Option.some.inj h).symm⟩
  · cases h

theorem Reading.goto (h : Reading rest L B s) {pc : ReceivingPc} (hpc : 4 < L ∨ L < 4 ∨ s.pc ≠ .start ∨ pc = .start) :
    Reading rest L B { s with pc } := by
  refine ⟨h.small, h.lenReceived, h.bytesReceived, h.le, h.header_first, h.stream, h.inWire, h.len, h.timestamp,
    fun hL => h.toReceive ?_, h.payload⟩
  rcases hL with hL | ⟨hL, hne⟩
  · exact .inl hL
  · rcases hpc with h4 | h4 | h4 | h4
    · exact .inl h4
    · omega
    · exact .inr ⟨hL, h4⟩
    · exact absurd h4 hne

theorem Reading.readLength (h : Reading rest L B s) :
    Reading rest L B { s with rd := s.rd.readLength, pc := .timestamp } := by
  unfold ReceivingData.readLength
  rw [h.lenReceived]
  split
  · next hL =>
    have hL : L = 4 := by omega
    obtain ⟨y, xs, rfl⟩ := h.exists_cons (by omega)
    have hsize := h.small y List.mem_cons_self
    have hlen := h.len
    rw [show min L 4 = 4 by omega, take_wire_four] at hlen
    refine ⟨h.small, rfl, h.bytesReceived, h.le, h.header_first, h.stream, h.inWire, h.len, h.timestamp,
      fun _ x hx => ?_, h.payload⟩
    cases hx
    show getLength s.rd.len = y.size
    unfold bufferSize at hsize
    rw [getLength_eq, hlen, beValue_beBytes (by omega)]
  · next hL => exact h.goto (by omega)

theorem Reading.storeLen (h : Reading rest L B s) (hpc : s.pc = .start) (hL : L < 4) {k : Nat} (hk : k ≤ 4 - L)
    (hks : k ≤ s.stream.length) :
    Reading rest (L + k) B { s with
      rd := { s.rd with len := s.rd.len.write L (s.stream.take k), lenReceived := (L : Int) + k },
      stream := s.stream.drop k } := by
  have hB := h.header_first (by omega)
  subst hB
  have hstream := h.stream
  have hlen := h.len
  have hin := h.inWire
  rw [Nat.add_zero] at hstream hin
  rw [Nat.min_eq_left (by omega)] at hlen
  rw [hstream, List.length_drop] at hks
  refine ⟨h.small, by show (L : Int) + k = _; omega, h.bytesReceived, by omega, fun _ => rfl, ?_, by omega, ?_, ?_, ?_,
    fun h0 => by omega⟩
  · show s.stream.drop k = _
    rw [hstream, List.drop_drop, Nat.add_zero]
  · show (s.rd.len.write L (s.stream.take k)).read 0 _ = _
    rw [Nat.min_eq_left (by omega), hstream]
    exact Mem.read_write_take hlen (by rw [List.length_drop]; exact hks)
  · rw [show L + k - 4 = 0 by omega]; rfl
  · rintro (h4 | ⟨-, hne⟩)
    · omega
    · exact absurd hpc hne

theorem Reading.storeTimestamp (h : Reading rest L B s) (hpc : s.pc = .timestamp) (h4 : 4 ≤ L) (hL : L < 20) {k : Nat}
    (hk : k ≤ 20 - L) (hks : k ≤ s.stream.length) :
    Reading rest (L + k) B { s with
      rd := { s.rd with timestamp := s.rd.timestamp.write (L - 4) (s.stream.take k), lenReceived := (L : Int) + k },
      stream := s.stream.drop k, pc := .tail } := by
  have hB := h.header_first hL
  subst hB
  have hstream := h.stream
  have hlen := h.len
  have hin := h.inWire
  rw [Nat.add_zero] at hstream hin
  rw [hstream, List.length_drop] at hks
  refine ⟨h.small, by show (L : Int) + k = _; omega, h.bytesReceived, by omega, fun _ => rfl, ?_, by omega, ?_, ?_, ?_,
    fun h0 => by omega⟩
  · show s.stream.drop k = _
    rw [hstream, List.drop_drop, Nat.add_zero]
  · rw [Nat.min_eq_right (by omega)] at hlen ⊢; exact hlen
  · show (s.rd.timestamp.write (L - 4) (s.stream.take k)).read 0 _ = _
    have hdrop : (wire rest).drop L = ((wire rest).drop 4).drop (L - 4) := by
      rw [List.drop_drop]; congr 1; omega
    rw [show L + k - 4 = L - 4 + k by omega, hstream, hdrop]
    refine Mem.read_write_take h.timestamp ?_
    rw [← hdrop, List.length_drop]; exact hks
  · exact fun _ => h.toReceive (by rw [hpc]; by_cases h' : L = 4 <;> simp [h']; omega)

theorem Reading.recvLen (h : Reading rest L B s) (hpc : s.pc = .start) (hu : Unfinished rest B) (hr : 0 ≤ r)
    (hs : s.recvLen state r = some t) :
    ∃ L', Reading rest L' B t ∧ AtPc rest L' B t ∧ t.fifo = s.fifo := by
  unfold ReceiveSys.recvLen at hs
  have hrd := h.lenReceived
  split at hs
  · cases hs
    exact ⟨L, h, .of_unfinished hu (.inl hpc), rfl⟩
  · split at hs
    · next hL =>
      rw [if_neg (by omega)] at hs
      obtain ⟨p, hp, rfl⟩ := Option.map_eq_some_iff.1 hs
      obtain ⟨k, rfl, hk, hks, rfl⟩ := lisaRecv_eq_some hr hp
      have hst := h.storeLen hpc (by omega) (show k ≤ 4 - L by omega) hks
      rw [hrd, Int.toNat_natCast]
      exact ⟨L + k, hst.readLength, .of_unfinished hu (.inr (.inl rfl)), rfl⟩
    · cases hs
      exact ⟨L, h.readLength, .of_unfinished hu (.inr (.inl rfl)), rfl⟩

theorem Reading.recvTimestamp (h : Reading rest L B s) (hpc : s.pc = .timestamp) (hu : Unfinished rest B) (hr : 0 ≤ r)
    (hs : s.recvTimestamp r = some t) :
    ∃ L', Reading rest L' B t ∧ AtPc rest L' B t ∧ t.fifo = s.fifo := by
  unfold ReceiveSys.recvTimestamp at hs
  have hrd := h.lenReceived
  split at hs
  · next hL =>
    obtain ⟨p, hp, rfl⟩ := Option.map_eq_some_iff.1 hs
    obtain ⟨k, rfl, hk, hks, rfl⟩ := lisaRecv_eq_some hr hp
    have hst := h.storeTimestamp hpc (by omega) (by omega) (show k ≤ 20 - L by omega) hks
    rw [hrd, show ((L : Int) - 4).toNat = L - 4 by omega]
    exact ⟨L + k, hst, .of_unfinished hu (.inr (.inr rfl)), rfl⟩
  · cases hs
    exact ⟨L, h.goto (.inr (.inr (.inl (by simp [hpc])))), .of_unfinished hu (.inr (.inr rfl)), rfl⟩

theorem Reading.getTail (h : Reading rest L B s) (hf : s.fifo.Inv n) (hpc : s.pc = .tail) (hu : Unfinished rest B) :
    Reading rest L B s.getTail ∧ AtPc rest L B s.getTail := by
  have hpc' : s.pc ≠ .start := by simp [hpc]
  unfold ReceiveSys.getTail
  rw [h.lenReceived]
  split
  · next hL =>
    have hL : L = 20 := by omega
    subst hL
    cases hprod : s.fifo.getTail.prod with
    | none =>
      simp only [hprod]
      refine ⟨⟨h.small, h.lenReceived, h.bytesReceived, h.le, h.header_first, h.stream, h.inWire, h.len,
        h.timestamp, fun _ => h.toReceive (.inl (by decide)), fun hB => ?_⟩, .of_unfinished hu (.inl rfl)⟩
      obtain ⟨slot, hp, -⟩ := h.payload hB
      rw [hf.getTail_prod hp] at hprod
      cases hprod
    | some slot =>
      simp only [hprod]
      obtain ⟨x, xs, rfl⟩ := h.exists_cons (by decide)
      refine ⟨⟨h.small, h.lenReceived, h.bytesReceived, h.le, h.header_first, h.stream, h.inWire, h.len,
        h.timestamp, fun _ => h.toReceive (.inl (by decide)), fun hB => ⟨slot, hprod, ?_⟩⟩,
        ⟨⟨nofun, nofun⟩, fun _ => hu, fun _ _ => ⟨slot, hprod, ?_⟩, nofun⟩⟩
      · obtain ⟨slot', hp, hbuf⟩ := h.payload hB
        rw [hf.getTail_prod hp] at hprod
        cases hprod
        show (s.fifo.q.data.set slot _ slot).buffer.read 0 B = _
        rw [Mem.set_self]
        exact hbuf
      · intro y hy
        cases hy
        have hts := getTimestamp_of_read (h.timestamp.trans (take_drop_wire x xs))
        show (s.fifo.q.data.set slot _ slot).sec = _ ∧ (s.fifo.q.data.set slot _ slot).nsec = _ ∧
          (s.fifo.q.data.set slot _ slot).positive = true
        rw [Mem.set_self, QItem.getTimestamp, hts]
        exact ⟨rfl, rfl, rfl⟩
  · next hL =>
    exact ⟨h.goto (.inr (.inr (.inl hpc'))), ⟨nofun, nofun⟩, fun _ => hu, fun _ hL' => absurd hL' (by omega),
      nofun⟩

theorem fifo_getTail (hf : s.fifo.Inv n) : s.getTail.fifo.Inv n ∧ s.getTail.fifo.published = s.fifo.published := by
  unfold ReceiveSys.getTail
  split
  · cases hprod : s.fifo.getTail.prod with
    | none => simp only [hprod]; exact ⟨hf.getTail, rfl⟩
    | some slot => simp only [hprod]; exact ⟨hf.getTail.fill hprod _, rfl⟩
  · exact ⟨hf, rfl⟩

theorem Reading.takePayload {x : QItem} (h : Reading (x :: rest) 20 B s) {slot k : Nat}
    (hprod : s.fifo.prod = some slot) (hB : B ≤ x.size) (hk : k ≤ x.size - B) (hks : k ≤ s.stream.length) :
    Reading (x :: rest) 20 (B + k) (s.takePayload slot k (s.stream.take k) (s.stream.drop k)) ∧
      ((s.takePayload slot k (s.stream.take k) (s.stream.drop k)).fifo.q.data slot).buffer.read 0 (B + k) =
        ((wire (x :: rest)).drop 20).take (B + k) := by
  have hstream := h.stream
  have hin := h.inWire
  have hsize := h.small x List.mem_cons_self
  unfold bufferSize at hsize
  have hbuf : (s.fifo.q.data slot).buffer.read 0 B = ((wire (x :: rest)).drop 20).take B := by
    rcases Nat.eq_zero_or_pos B with rfl | hpos
    · rfl
    · obtain ⟨slot', hp, hbuf⟩ := h.payload hpos
      rw [hprod] at hp
      cases hp
      exact hbuf
  rw [hstream, ← List.drop_drop] at hks
  have hread : ((s.takePayload slot k (s.stream.take k) (s.stream.drop k)).fifo.q.data slot).buffer.read 0 (B + k) =
      ((wire (x :: rest)).drop 20).take (B + k) := by
    show (s.fifo.q.data.set slot _ slot).buffer.read 0 (B + k) = _
    rw [Mem.set_self]
    show ((s.fifo.q.data slot).buffer.write s.rd.bytesReceived (s.stream.take k)).read 0 (B + k) = _
    rw [h.bytesReceived, hstream, ← List.drop_drop]
    exact Mem.read_write_take hbuf hks
  rw [List.drop_drop, List.length_drop] at hks
  refine ⟨⟨h.small, h.lenReceived, ?_, h.le, fun h20 => absurd h20 (by decide), ?_, by omega, h.len, h.timestamp,
    fun _ => h.toReceive (.inl (by decide)), fun _ => ⟨slot, hprod, hread⟩⟩, hread⟩
  · show u32 (s.rd.bytesReceived + k : Int) = _
    rw [h.bytesReceived, ← Int.natCast_add, u32_of_lt (by omega)]
  · show s.stream.drop k = _
    rw [hstream, List.drop_drop, Nat.add_assoc]

theorem Reading.takePayload_atPc {x : QItem} (h : Reading (x :: rest) 20 B s) {slot k : Nat}
    (hprod : s.fifo.prod = some slot) (hB : B ≤ x.size) (hk : k ≤ x.size - B) (hks : k ≤ s.stream.length)
    (hsec : (s.fifo.q.data slot).sec = x.sec) (hnsec : (s.fifo.q.data slot).nsec = x.nsec)
    (hpos : (s.fifo.q.data slot).positive = true) :
    AtPc (x :: rest) 20 (B + k) (s.takePayload slot k (s.stream.take k) (s.stream.drop k)) := by
  obtain ⟨hst, hread⟩ := h.takePayload hprod hB hk hks
  have hto := h.toReceive (.inl (by decide)) x rfl
  have hrec : u32 (s.rd.bytesReceived + k : Int) = B + k := hst.bytesReceived
  have hpc : (s.takePayload slot k (s.stream.take k) (s.stream.drop k)).pc =
      if B + k = x.size then .put else .start := by
    show payloadPc { s.rd with bytesReceived := u32 (s.rd.bytesReceived + k : Int) } = _
    unfold payloadPc
    simp only [hrec, hto]
    rw [if_neg (by omega)]
  by_cases hend : B + k = x.size
  · rw [if_pos hend] at hpc
    have hitem : (s.takePayload slot k (s.stream.take k) (s.stream.drop k)).fifo.q.data slot =
        { s.fifo.q.data slot with
          size := s.rd.bytesToReceive,
          buffer := (s.fifo.q.data slot).buffer.write s.rd.bytesReceived (s.stream.take k) } := Mem.set_self ..
    refine ⟨by simp [hpc], fun hne => absurd hpc hne, fun hp => ?_, fun _ => ⟨rfl, slot, hprod, fun y hy => ?_⟩⟩
    · cases hpc.symm.trans hp
    · cases hy
      rw [hitem] at hread ⊢
      refine ⟨hend, hto, hsec, hnsec, hpos, ?_⟩
      rw [hend, take_payload, ← hto] at hread
      exact hread
  · rw [if_neg hend] at hpc
    refine .of_unfinished (.inr fun y hy => ?_) (.inl hpc)
    cases hy
    omega

theorem Reading.recvPayload (h : Reading rest L B s) (hat : AtPc rest L B s) (hpc : s.pc = .payload) (hr : 0 ≤ r)
    (hs : s.recvPayload r = some t) :
    ∃ B', Reading rest L B' t ∧ AtPc rest L B' t ∧
      (t.fifo = s.fifo ∨ ∃ slot item, s.fifo.prod = some slot ∧ t.fifo = s.fifo.fill slot item) := by
  have hu := hat.unfinished (by simp [hpc])
  unfold ReceiveSys.recvPayload at hs
  rw [h.lenReceived] at hs
  split at hs
  · next hL =>
    have hL : L = 20 := by have := h.le; omega
    subst hL
    obtain ⟨x, xs, rfl⟩ := h.exists_cons (by decide)
    obtain ⟨slot, hprod, hts⟩ := hat.payload hpc rfl
    obtain ⟨hsec, hnsec, hpos⟩ := hts x rfl
    have hsize := h.small x List.mem_cons_self
    have hto := h.toReceive (.inl (by decide)) x rfl
    have hB : B ≤ x.size := by
      rcases hu with rfl | hu
      · exact Nat.zero_le _
      · exact Nat.le_of_lt (hu x rfl)
    have hmax := hsize
    unfold bufferSize at hmax
    rw [hprod] at hs
    simp only [if_pos (hto.trans_le hsize)] at hs
    obtain ⟨p, hp, rfl⟩ := Option.map_eq_some_iff.1 hs
    rw [hto, h.bytesReceived, u32_sub hB (by omega)] at hp
    obtain ⟨k, rfl, hk, hks, rfl⟩ := lisaRecv_eq_some hr hp
    exact ⟨B + k, (h.takePayload hprod hB hk hks).1, h.takePayload_atPc hprod hB hk hks hsec hnsec hpos,
      .inr ⟨slot, _, hprod, rfl⟩⟩
  · cases hs
    exact ⟨B, h.goto (.inr (.inr (.inr rfl))), .of_unfinished hu (.inl rfl), .inl rfl⟩

theorem Reading.putTail (h : Reading rest L B s) (hat : AtPc rest L B s) (hpc : s.pc = .put) (hs : s.putTail = some t) :
    ∃ x xs slot, rest = x :: xs ∧ s.fifo.prod = some slot ∧ (s.fifo.q.data slot).Same x ∧
      t.fifo = s.fifo.putTail slot ∧ Reading xs 0 0 t ∧ AtPc xs 0 0 t := by
  obtain ⟨rfl, slot, hprod, hx⟩ := hat.put hpc
  obtain ⟨x, xs, rfl⟩ := h.exists_cons (by decide)
  obtain ⟨rfl, hsame⟩ := hx x rfl
  obtain ⟨slot', hp, rfl⟩ := Option.map_eq_some_iff.1 hs
  rw [hprod] at hp
  cases hp
  refine ⟨x, xs, slot, rfl, hprod, hsame, rfl, ?_, .of_unfinished (.inl rfl) (.inl rfl)⟩
  refine ⟨fun y hy => h.small y (List.mem_cons_of_mem _ hy), rfl, rfl, Nat.zero_le _, fun _ => rfl, ?_, Nat.zero_le _, rfl,
    rfl, ?_, fun h0 => absurd h0 (Nat.lt_irrefl 0)⟩
  · show s.stream = (wire xs).drop 0
    rw [h.stream, drop_wire]; rfl
  · rintro (h0 | ⟨h0, -⟩)
    · exact absurd h0 (by decide)
    · exact absurd h0 (by decide)

/-! ### Every run -/

/-- The items published so far are the first ones sent, and the receiver reads the next one. -/
structure Inv (n : Nat) (items : List QItem) (s : ReceiveSys) : Prop where
  fifo : s.fifo.Inv n
  place : ∃ done rest L B, items = done ++ rest ∧ List.Forall₂ QItem.Same s.fifo.published done ∧
    Reading rest L B s ∧ AtPc rest L B s

theorem Inv.init {rd : ReceivingData} {q : AqType QItem} (hq : q.Rep []) (hn : q.numItems = n)
    (hsmall : ∀ x ∈ items, x.size ≤ bufferSize) : (ReceiveSys.init rd q (wire items)).Inv n items := by
  refine ⟨.init hq hn, [], items, 0, 0, rfl, .nil, ?_, .of_unfinished (.inl rfl) (.inl rfl)⟩
  refine ⟨hsmall, rfl, rfl, Nat.zero_le _, fun _ => rfl, rfl, Nat.zero_le _, rfl, rfl, ?_,
    fun h0 => absurd h0 (Nat.lt_irrefl 0)⟩
  rintro (h0 | ⟨h0, -⟩)
  · exact absurd h0 (by decide)
  · exact absurd h0 (by decide)

theorem Inv.consumer (h : s.Inv n items) {fifo : FifoSys QItem} (hf : fifo.Inv n) (hdata : fifo.q.data = s.fifo.q.data)
    (hprod : fifo.prod = s.fifo.prod) (hpub : fifo.published = s.fifo.published) :
    ({ s with fifo } : ReceiveSys).Inv n items := by
  obtain ⟨done, rest, L, B, hitems, hsame, hr, hat⟩ := h.place
  refine ⟨hf, done, rest, L, B, hitems, by rw [hpub]; exact hsame, ?_, hat.running, hat.unfinished, ?_, ?_⟩
  · refine ⟨hr.small, hr.lenReceived, hr.bytesReceived, hr.le, hr.header_first, hr.stream, hr.inWire, hr.len,
      hr.timestamp, hr.toReceive, ?_⟩
    rw [hprod, hdata]; exact hr.payload
  · rw [hprod, hdata]; exact hat.payload
  · rw [hprod, hdata]; exact hat.put

theorem Inv.step {a : ReceiveAct} (h : s.Inv n items) (hG : Delivers s a) (hs : s.step a = some t) : t.Inv n items := by
  obtain ⟨done, rest, L, B, hitems, hsame, hr, hat⟩ := h.place
  cases a with
  | recvLen state r =>
    obtain ⟨hpc, hs⟩ := Option.ite_none_right_eq_some.1 hs
    obtain ⟨L', hr', hat', hf⟩ := hr.recvLen hpc (hat.unfinished (by simp [hpc])) hG hs
    exact ⟨hf ▸ h.fifo, done, rest, L', B, hitems, hf ▸ hsame, hr', hat'⟩
  | recvTimestamp r =>
    obtain ⟨hpc, hs⟩ := Option.ite_none_right_eq_some.1 hs
    obtain ⟨L', hr', hat', hf⟩ := hr.recvTimestamp hpc (hat.unfinished (by simp [hpc])) hG hs
    exact ⟨hf ▸ h.fifo, done, rest, L', B, hitems, hf ▸ hsame, hr', hat'⟩
  | getTail =>
    obtain ⟨hpc, hs⟩ := Option.ite_none_right_eq_some.1 hs
    cases hs
    obtain ⟨hr', hat'⟩ := hr.getTail h.fifo hpc (hat.unfinished (by simp [hpc]))
    obtain ⟨hf, hpub⟩ := fifo_getTail h.fifo
    exact ⟨hf, done, rest, L, B, hitems, hpub ▸ hsame, hr', hat'⟩
  | recvPayload r =>
    obtain ⟨hpc, hs⟩ := Option.ite_none_right_eq_some.1 hs
    obtain ⟨B', hr', hat', hf⟩ := hr.recvPayload hat hpc hG hs
    rcases hf with hf | ⟨slot, item, hprod, hf⟩
    · exact ⟨hf ▸ h.fifo, done, rest, L, B', hitems, hf ▸ hsame, hr', hat'⟩
    · exact ⟨hf ▸ h.fifo.fill hprod item, done, rest, L, B', hitems, hf ▸ hsame, hr', hat'⟩
  | putTail =>
    obtain ⟨hpc, hs⟩ := Option.ite_none_right_eq_some.1 hs
    obtain ⟨x, xs, slot, rfl, hprod, hx, hf, hr', hat'⟩ := hr.putTail hat hpc hs
    refine ⟨hf ▸ h.fifo.putTail hprod, done ++ [x], xs, 0, 0, by rw [hitems, List.append_assoc]; rfl, ?_, hr', hat'⟩
    rw [hf]
    exact List.rel_append hsame (.cons hx .nil)
  | getHead =>
    obtain ⟨fifo, hf, rfl⟩ := Option.map_eq_some_iff.1 hs
    obtain ⟨hdata, hprod, hpub⟩ := FifoSys.step_consumer (.inl rfl) hf
    exact h.consumer (h.fifo.step hf) hdata hprod hpub
  | use =>
    obtain ⟨fifo, hf, rfl⟩ := Option.map_eq_some_iff.1 hs
    obtain ⟨hdata, hprod, hpub⟩ := FifoSys.step_consumer (.inr (.inl rfl)) hf
    exact h.consumer (h.fifo.step hf) hdata hprod hpub
  | usedHead =>
    obtain ⟨fifo, hf, rfl⟩ := Option.map_eq_some_iff.1 hs
    obtain ⟨hdata, hprod, hpub⟩ := FifoSys.step_consumer (.inr (.inr rfl)) hf
    exact h.consumer (h.fifo.step hf) hdata hprod hpub

theorem Inv.path {acts : List ReceiveAct} (hp : Path ReceiveSys.step Delivers s acts t) (h : s.Inv n items) :
    t.Inv n items :=
  hp.invariant (ReceiveSys.Inv n items) (fun _ _ _ hi hG hs => hi.step hG hs) h

/-- The stream is used up and the receiver is between two calls: everything is published, or the
last item is empty and waits for a free slot. -/
theorem Inv.delivered (h : s.Inv n items) (hstream : s.stream = []) (hpc : s.pc = .start) :
    List.Forall₂ QItem.Same s.fifo.published items ∨
      s.rd.lenReceived = 20 ∧ s.rd.bytesReceived = 0 ∧ s.rd.bytesToReceive = 0 := by
  obtain ⟨done, rest, L, B, rfl, hsame, hr, hat⟩ := h.place
  cases rest with
  | nil => rw [List.append_nil]; exact .inl hsame
  | cons x xs =>
    have hle := le_length_wire x xs
    have hL := hr.le
    rw [hr.stream, List.drop_eq_nil_iff] at hstream
    have hin := hr.inWire
    rcases hat.unfinished (by simp [hpc]) with rfl | hu
    · have hto := hr.toReceive (.inl (by omega)) x rfl
      exact .inr ⟨by rw [hr.lenReceived]; omega, hr.bytesReceived, by omega⟩
    · have := hu x rfl
      omega

/-- A call with a time out in each `lisa_recv`. -/
def idleCall (state : LisaState) : List ReceiveAct :=
  [.recvLen state 0, .recvTimestamp 0, .getTail, .recvPayload 0, .putTail]

theorem path_idleCall (hpc : s.pc = .start) (hL : s.rd.lenReceived = 20) (hB : s.rd.bytesReceived = 0)
    (hto : s.rd.bytesToReceive = 0) (hstate : LisaState.connected.code ≤ state.code)
    (hfree : aqGetTail s.fifo.q ≠ none) :
    ∃ t, Path ReceiveSys.step Delivers s (idleCall state) t ∧ t.pc = .start ∧ t.stream = s.stream ∧
      t.rd.lenReceived = 0 := by
  obtain ⟨slot, hslot⟩ := Option.ne_none_iff_exists'.1 hfree
  have hprod : s.fifo.getTail.prod = some slot := hslot
  have hrd : s.rd.readLength = s.rd := if_neg (by simp [hL])
  let item := (s.fifo.getTail.q.data slot).getTimestamp s.rd.timestamp
  let s₃ : ReceiveSys := { s with fifo := s.fifo.getTail.fill slot item, pc := .payload }
  have h₁ : s.step (.recvLen state 0) = some { s with pc := .timestamp } := by
    simp only [step, hpc, ReceiveSys.recvLen]
    rw [if_pos trivial, if_neg (by omega), if_neg (by simp [hL]), hrd]
  have h₂ : ({ s with pc := .timestamp } : ReceiveSys).step (.recvTimestamp 0) = some { s with pc := .tail } := by
    simp only [step, ReceiveSys.recvTimestamp]
    rw [if_pos trivial, if_neg (by simp [hL])]
  have h₃ : ({ s with pc := .tail } : ReceiveSys).step .getTail = some s₃ := by
    simp only [step, ReceiveSys.getTail, hL, hprod, if_true]
    rfl
  have h₄ : s₃.step (.recvPayload 0) = some (s₃.takePayload slot 0 [] s.stream) := by
    have hrecv : lisaRecv s₃.stream (u32 ((s₃.rd.bytesToReceive : Int) - s₃.rd.bytesReceived)) 0 =
        some ([], s.stream) := by simp [lisaRecv, s₃]
    have hprod₃ : s₃.fifo.prod = some slot := hslot
    simp only [step, ReceiveSys.recvPayload, hprod₃, hrecv]
    rw [if_pos rfl, if_pos (show 20 ≤ s.rd.lenReceived by omega),
      if_pos (show s.rd.bytesToReceive ≤ _ by omega)]
    rfl
  have hpc₄ : (s₃.takePayload slot 0 [] s.stream).pc = .put := by
    show payloadPc { s.rd with bytesReceived := u32 (s.rd.bytesReceived + 0 : Int) } = _
    rw [hB]
    unfold payloadPc
    simp [hto, u32]
  have h₅ : (s₃.takePayload slot 0 [] s.stream).step .putTail = (s₃.takePayload slot 0 [] s.stream).putTail := by
    simp only [step, hpc₄, if_true]
  have hput : (s₃.takePayload slot 0 [] s.stream).putTail = some
      { s₃.takePayload slot 0 [] s.stream with
        rd := (s₃.takePayload slot 0 [] s.stream).rd.init,
        fifo := (s₃.takePayload slot 0 [] s.stream).fifo.putTail slot, pc := .start } := by
    have hprod₄ : (s₃.takePayload slot 0 [] s.stream).fifo.prod = some slot := hslot
    rw [ReceiveSys.putTail, hprod₄]
    rfl
  exact ⟨_, .cons (Int.le_refl 0) h₁ (.cons (Int.le_refl 0) h₂ (.cons trivial h₃ (.cons (Int.le_refl 0) h₄
    (.single trivial (h₅.trans hput))))), rfl, rfl, rfl⟩

end ReceiveSys

/-- The receiver reassembles every stream: whatever the results of `lisa_recv` and whenever the
consumer runs, no `assert` fails and no read leaves its array, the items published are the first
items sent, and every byte read belongs to them or to the next item. Once the stream is used up,
all items are published, or the last one is empty and is published by the next call that finds a
free slot. -/
theorem receiver_reassembles (n itemSize : Nat) (block : Option (Mem QItem)) (q : AqType QItem)
    (hn : 1 ≤ n) (hn' : n ≤ 65535) (hq : aqNew block itemSize n = some q) (rd : ReceivingData)
    (items : List QItem) (hsmall : ∀ x ∈ items, x.size ≤ bufferSize) (acts : List ReceiveAct) (s : ReceiveSys)
    (h : Path ReceiveSys.step ReceiveSys.Delivers (ReceiveSys.init rd q (wire items)) acts s) :
    (s.pc ≠ .aborted ∧ s.pc ≠ .outOfBounds) ∧
    (∃ done rest, ∃ L B : Nat, items = done ++ rest ∧ List.Forall₂ QItem.Same s.fifo.published done ∧
      s.rd.lenReceived = L ∧ s.rd.bytesReceived = B ∧ L + B ≤ (wire rest).length ∧
      s.stream = (wire rest).drop (L + B)) ∧
    (s.stream = [] → s.pc = .start → List.Forall₂ QItem.Same s.fifo.published items ∨
      ∀ state : LisaState, LisaState.connected.code ≤ state.code → aqGetTail s.fifo.q ≠ none →
        ∃ t, Path ReceiveSys.step ReceiveSys.Delivers s (ReceiveSys.idleCall state) t ∧
          List.Forall₂ QItem.Same t.fifo.published items) := by
  obtain ⟨hrep, hnum⟩ := AqType.Rep.new hn hn' hq
  have hi : s.Inv n items := ReceiveSys.Inv.path h (.init hrep hnum hsmall)
  refine ⟨?_, ?_, fun hstream hpc => ?_⟩
  · obtain ⟨_, _, _, _, -, -, -, hat⟩ := hi.place
    exact hat.running
  · obtain ⟨done, rest, L, B, hitems, hsame, hr, -⟩ := hi.place
    exact ⟨done, rest, L, B, hitems, hsame, hr.lenReceived, hr.bytesReceived, hr.inWire, hr.stream⟩
  · rcases hi.delivered hstream hpc with hall | ⟨hL, hB, hto⟩
    · exact .inl hall
    · refine .inr fun state hstate hfree => ?_
      obtain ⟨t, ht, htpc, htstream, htL⟩ := ReceiveSys.path_idleCall hpc hL hB hto hstate hfree
      refine ⟨t, ht, ?_⟩
      rcases (hi.path ht).delivered (htstream.trans hstream) htpc with hall | ⟨hL', -⟩
      · exact hall
      · rw [htL] at hL'
        exact absurd hL' (by decide)

/-- An item of one byte, read with one time out. -/
theorem receiver_reassembles_one : ∃ q s,
    aqNew (some (Mem.fill ⟨0, 0, 0, false, Mem.fill 0⟩)) 2536 queueSize = some q ∧
    Path ReceiveSys.step ReceiveSys.Delivers
      (ReceiveSys.init ⟨Mem.fill 0, Mem.fill 0, 0, 0, 0⟩ q (wire [⟨1, 5, 7, true, Mem.fill 9⟩]))
      [.recvLen .connected 4, .recvTimestamp 16, .getTail, .recvPayload 0,
        .recvLen .connected 0, .recvTimestamp 0, .getTail, .recvPayload 1, .putTail] s ∧
    s.fifo.published.map (fun x => (x.size, x.sec, x.nsec, x.positive, x.bytes)) = [(1, 5, 7, true, [9])] ∧
    s.pc ≠ .aborted ∧ s.pc ≠ .outOfBounds := by
  refine ⟨_, _, rfl, .of_run (by decide +kernel), by decide +kernel, ?_⟩
  exact (receiver_reassembles queueSize 2536 (some (Mem.fill ⟨0, 0, 0, false, Mem.fill 0⟩)) _ (by decide) (by decide) rfl
    _ [⟨1, 5, 7, true, Mem.fill 9⟩] (by decide) _ _ (.of_run (by decide +kernel))).1

end Injector
end WlanxVms
