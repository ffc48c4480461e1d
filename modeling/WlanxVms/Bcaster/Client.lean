import WlanxVms.Wire

/-!
# The receive buffer of a bcaster client (`main.c`, `pkt.c`)

`ClientData` is `client_data_t`. The body of `repeat_receiving_function` between the `recv` and the
end of the step is cut at its assignments: `received` stores what arrived, `readExpected` and
`consume` are the two branches of the `while` body, `relocate` is what follows the loop.
`packetLoop` runs the loop; it gives `none` when the fuel is used up, and the fuel that
`receiveChunk` gives is used up only by a loop that does not end (`packetLoop_eq_none`).
-/

namespace WlanxVms
namespace Bcaster

def maxSize : Nat := 3000

/-- `client_data_t`; `next_pkt` is its offset in the buffer. -/
structure ClientData where
  clientFd : Int
  bytesExpected : Nat
  bytesReceived : Nat
  buffer : Mem UInt8
  nextPkt : Nat

/-- What `process_pkt` is called with: the address of a packet in the client's buffer, its length,
and the bytes that are there. -/
structure Pkt where
  pkt : Nat
  pktLen : Nat
  bytes : List UInt8
deriving DecidableEq

namespace ClientData

/-- What `repeat_listening_function` stores into `NEXT_CLIENT`. -/
def register (c : ClientData) (fd : Int) : ClientData :=
  { c with clientFd := fd, bytesExpected := 0, bytesReceived := 0, nextPkt := 0 }

def bufferRemaining (c : ClientData) : Nat := u32 ((maxSize : Int) - c.bytesReceived)

/-- `bytes_received += lisa_recv_part2(lp, buffer_start, buffer_remaining)`, where `recv` stored the
bytes `bs` and returned `rc`. -/
def received (c : ClientData) (rc : Int) (bs : List UInt8) : ClientData :=
  { c with buffer := c.buffer.write c.bytesReceived bs, bytesReceived := u32 (c.bytesReceived + rc) }

/-- The condition of the `while`. -/
def loopCond (c : ClientData) : Bool := 4 ≤ c.bytesReceived ∧ c.bytesExpected ≤ c.bytesReceived

def readExpected (c : ClientData) : ClientData :=
  if c.bytesExpected = 0 ∧ 4 ≤ c.bytesReceived then
    { c with bytesExpected := u32 (pktGetLength c.buffer + 20) }
  else c

def pktReady (c : ClientData) : Bool := c.bytesExpected ≠ 0 ∧ c.bytesExpected ≤ c.bytesReceived

def pkt (c : ClientData) : Pkt := ⟨c.nextPkt, c.bytesExpected, c.buffer.read c.nextPkt c.bytesExpected⟩

def consume (c : ClientData) : ClientData :=
  { c with bytesReceived := u32 ((c.bytesReceived : Int) - c.bytesExpected),
           nextPkt := c.nextPkt + c.bytesExpected, bytesExpected := 0 }

def packetLoop : Nat → ClientData → Option (ClientData × List Pkt)
  | 0, _ => none
  | fuel + 1, c =>
    if c.loopCond then
      let c := c.readExpected
      if c.pktReady then (packetLoop fuel c.consume).map fun r => (r.1, c.pkt :: r.2)
      else packetLoop fuel c
    else some (c, [])

/-- Moves the bytes of an incomplete packet to the front of the buffer. -/
def relocate (c : ClientData) : ClientData :=
  { c with buffer := if 0 < c.bytesReceived then c.buffer.copyDown c.nextPkt c.bytesReceived else c.buffer,
           nextPkt := 0 }

/-- `repeat_receiving_function` from the `recv` on, for a client whose `recv` delivers `chunk`. -/
def receiveChunk (c : ClientData) (chunk : List UInt8) : Option (ClientData × List Pkt) :=
  let c := c.received chunk.length chunk
  (c.packetLoop (c.bytesReceived + 2)).map fun r => (r.1.relocate, r.2)

/-- Successive calls, with the packets that each of them handed to `process_pkt`. -/
def receiveChunks (c : ClientData) : List (List UInt8) → Option (ClientData × List (List Pkt))
  | [] => some (c, [])
  | chunk :: chunks =>
    (c.receiveChunk chunk).bind fun r =>
      (receiveChunks r.1 chunks).map fun r' => (r'.1, r.2 :: r'.2)

variable {c : ClientData} {fuel m n : Nat} {r : ClientData × List Pkt}

theorem loopCond_iff : c.loopCond = true ↔ 4 ≤ c.bytesReceived ∧ c.bytesExpected ≤ c.bytesReceived := by
  simp [loopCond]

theorem pktReady_iff : c.pktReady = true ↔ c.bytesExpected ≠ 0 ∧ c.bytesExpected ≤ c.bytesReceived := by
  simp [pktReady]

@[simp] theorem readExpected_bytesReceived : c.readExpected.bytesReceived = c.bytesReceived := by
  unfold readExpected; split <;> rfl

@[simp] theorem readExpected_nextPkt : c.readExpected.nextPkt = c.nextPkt := by
  unfold readExpected; split <;> rfl

@[simp] theorem readExpected_buffer : c.readExpected.buffer = c.buffer := by
  unfold readExpected; split <;> rfl

@[simp] theorem readExpected_clientFd : c.readExpected.clientFd = c.clientFd := by
  unfold readExpected; split <;> rfl

theorem readExpected_eq_self (h : c.readExpected.bytesExpected = 0) : c.readExpected = c := by
  unfold readExpected at h ⊢
  split
  · next hc =>
    rw [if_pos hc] at h
    obtain ⟨fd, e, r, b, p⟩ := c
    simp only at h hc ⊢
    rw [h, hc.1]
  · rfl

theorem packetLoop_stop (h : c.loopCond = false) : packetLoop (fuel + 1) c = some (c, []) := by
  simp [packetLoop, h]

theorem packetLoop_wait (h : c.loopCond = true) (hr : c.readExpected.pktReady = false) :
    packetLoop (fuel + 1) c = packetLoop fuel c.readExpected := by
  simp [packetLoop, h, hr]

theorem packetLoop_deliver (h : c.loopCond = true) (hr : c.readExpected.pktReady = true) :
    packetLoop (fuel + 1) c =
      (packetLoop fuel c.readExpected.consume).map fun r => (r.1, c.readExpected.pkt :: r.2) := by
  simp [packetLoop, h, hr]

theorem packetLoop_mono (h : packetLoop m c = some r) (hmn : m ≤ n) : packetLoop n c = some r := by
  induction m generalizing n c r with
  | zero => cases h
  | succ m ih =>
    obtain ⟨n, rfl⟩ := Nat.exists_eq_succ_of_ne_zero (show n ≠ 0 by omega)
    have hmn : m ≤ n := by omega
    cases hc : c.loopCond with
    | false => rw [packetLoop_stop hc] at h ⊢; exact h
    | true =>
      cases hr : c.readExpected.pktReady with
      | false => rw [packetLoop_wait hc hr] at h ⊢; exact ih h hmn
      | true =>
        rw [packetLoop_deliver hc hr, Option.map_eq_some_iff] at h
        obtain ⟨x, hx, rfl⟩ := h
        rw [packetLoop_deliver hc hr, ih hx hmn]; rfl

/-- A loop that ends does so within one iteration more than there are bytes: an iteration delivers
a packet, or it is the last one, or it leaves the client as it is. -/
theorem packetLoop_of_some (h : packetLoop m c = some r) : packetLoop (c.bytesReceived + 2) c = some r := by
  induction m generalizing c r with
  | zero => cases h
  | succ m ih =>
    cases hc : c.loopCond with
    | false => rw [packetLoop_stop hc] at h ⊢; exact h
    | true =>
      cases hr : c.readExpected.pktReady with
      | false =>
        rw [packetLoop_wait hc hr] at h
        by_cases he : c.readExpected.bytesExpected = 0
        · rw [readExpected_eq_self he] at h
          exact ih h
        · have hlt : c.readExpected.loopCond = false := by
            rw [← Bool.not_eq_true, pktReady_iff] at hr
            rw [← Bool.not_eq_true, loopCond_iff]
            intro hl
            exact hr ⟨he, hl.2⟩
          rw [packetLoop_wait hc hr, packetLoop_stop hlt]
          rw [← packetLoop_mono h (Nat.le_succ m), packetLoop_stop hlt]
      | true =>
        have hlt : c.readExpected.consume.bytesReceived < c.bytesReceived := by
          rw [pktReady_iff, readExpected_bytesReceived] at hr
          show u32 ((c.readExpected.bytesReceived : Int) - _) < _
          rw [readExpected_bytesReceived]
          unfold u32; omega
        rw [packetLoop_deliver hc hr, Option.map_eq_some_iff] at h
        obtain ⟨x, hx, rfl⟩ := h
        rw [packetLoop_deliver hc hr, packetLoop_mono (ih hx) (by omega)]; rfl

/-- The fuel that `receiveChunk` gives the loop runs out only when the loop does not end. -/
theorem packetLoop_eq_none (h : packetLoop (c.bytesReceived + 2) c = none) : packetLoop m c = none := by
  cases hm : packetLoop m c with
  | none => rfl
  | some r => rw [packetLoop_of_some hm] at h; cases h

end ClientData
end Bcaster
end WlanxVms
