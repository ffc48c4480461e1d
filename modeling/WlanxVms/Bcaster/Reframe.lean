import WlanxVms.Bcaster.Client
import WlanxVms.Lib.Framing

/-!
# Re-framing a client's stream

A client sends the concatenation of frames, and `recv` delivers it in chunks of any sizes that fit
the buffer. `Reframes` says that the calls hand out the frames as they are completed;
`reframes_iff_sameSize` says when they do. Between calls a client is `Settled`: the buffer starts
with the bytes of the incomplete frame. Inside the loop it is `Looping`, with the length that the
front of the buffer holds. A client that took the length at the front for the length of a later
frame is `Missized` and stays so until it hands out a wrong packet.
-/

namespace WlanxVms
namespace Bcaster
open Framing

/-- A frame on the wire: a length, a timestamp of 16 bytes and that many bytes of payload. -/
structure Frame where
  timestamp : List UInt8
  payload : List UInt8
  timestamp_length : timestamp.length = 16
  size_le : payload.length + 20 ≤ maxSize

def Frame.encode (f : Frame) : List UInt8 := beBytes 4 f.payload.length ++ f.timestamp ++ f.payload

structure IsFrame (p : List UInt8) : Prop where
  le_length : 20 ≤ p.length
  length_le : p.length ≤ maxSize
  header : beValue (p.take 4) + 20 = p.length

theorem Frame.isFrame_encode (f : Frame) : IsFrame f.encode := by
  have hlen : f.encode.length = f.payload.length + 20 := by
    simp only [encode, List.length_append, length_beBytes, f.timestamp_length]; omega
  have hsize := f.size_le
  refine ⟨by omega, by omega, ?_⟩
  have htake : f.encode.take 4 = beBytes 4 f.payload.length := by
    rw [encode, List.append_assoc, List.take_left' (length_beBytes ..)]
  rw [htake, hlen, beValue_beBytes]
  unfold maxSize at hsize; omega

/-- The packets `fs`, handed out from consecutive addresses. -/
def pktsAt : Nat → List (List UInt8) → List Pkt
  | _, [] => []
  | o, f :: fs => ⟨o, f.length, f⟩ :: pktsAt (o + f.length) fs

theorem map_bytes_pktsAt (o : Nat) (fs : List (List UInt8)) : (pktsAt o fs).map Pkt.bytes = fs := by
  induction fs generalizing o with
  | nil => rfl
  | cons f fs ih => rw [pktsAt, List.map_cons, ih]

/-! ### What the calls have to do, and when they do it -/

/-- The client after `n` bytes of the stream `fs`, and what each call handed out: the frames
completed so far, in each call from the front of the buffer on, and the rest of the bytes is at the
front of the buffer. -/
structure Reframed (fs : List (List UInt8)) (n : Nat) (c : ClientData) (logs : List (List Pkt)) : Prop where
  handed : logs.flatten.map Pkt.bytes = completed fs n
  placed : ∀ log ∈ logs, log = pktsAt 0 (log.map Pkt.bytes)
  bytesReceived : c.bytesReceived = leftover fs n
  nextPkt : c.nextPkt = 0
  front : c.buffer.read 0 (leftover fs n) = (pending fs n).flatten.take (leftover fs n)

/-- Every call on a chunk re-frames; `n` bytes of the stream `fs` are there before the first call. -/
def Reframes (c : ClientData) (fs : List (List UInt8)) (n : Nat) (chunks : List (List UInt8)) : Prop :=
  ∀ k, k ≤ chunks.length → ∃ c' logs, c.receiveChunks (chunks.take k) = some (c', logs) ∧
    Reframed fs (n + (chunks.take k).flatten.length) c' logs

/-- Each chunk is a possible result of its `recv`. -/
def ChunksFit : ClientData → List (List UInt8) → Prop
  | _, [] => True
  | c, chunk :: chunks => 1 ≤ chunk.length ∧ chunk.length ≤ c.bufferRemaining ∧
      ∀ c' log, c.receiveChunk chunk = some (c', log) → ChunksFit c' chunks

/-- In every call, the frames whose length field has arrived are as long as the frame at the front
of the buffer. -/
def SameSize : List (List UInt8) → Nat → List (List UInt8) → Prop
  | _, _, [] => True
  | fs, n, chunk :: chunks =>
    (∀ f ∈ headed 4 fs (n + chunk.length), ∀ g ∈ fs.head?, f.length = g.length) ∧
    SameSize (pending fs (n + chunk.length)) (leftover fs (n + chunk.length)) chunks

/-! ### Inside the loop -/

/-- `r` unprocessed bytes of the frames `ps` are in the buffer; the first four bytes of the buffer
stand for a frame of length `ℓ`. -/
structure Looping (ℓ : Nat) (c : ClientData) (ps : List (List UInt8)) (r : Nat) : Prop where
  bytesReceived : c.bytesReceived = r
  le_flatten : r ≤ ps.flatten.length
  le_maxSize : r ≤ maxSize
  bytes : c.buffer.read c.nextPkt r = ps.flatten.take r
  le_len : 20 ≤ ℓ
  len_le : ℓ ≤ maxSize
  front : 4 ≤ r → pktGetLength c.buffer + 20 = ℓ
  expected : c.bytesExpected = 0 ∨ c.bytesExpected = ℓ ∧ 4 ≤ r
  frames : ∀ p ∈ ps, IsFrame p

namespace Looping
open ClientData
variable {ℓ r fuel : Nat} {c c' : ClientData} {p : List UInt8} {ps : List (List UInt8)} {log : List Pkt}

theorem readExpected (h : Looping ℓ c ps r) (h4 : 4 ≤ r) : c.readExpected.bytesExpected = ℓ := by
  have hr := h.bytesReceived
  unfold ClientData.readExpected
  rcases h.expected with he | ⟨he, -⟩
  · rw [if_pos ⟨he, hr ▸ h4⟩]
    show u32 ((pktGetLength c.buffer : Int) + 20) = ℓ
    have := h.front h4
    have := h.len_le
    unfold maxSize at this
    unfold u32; omega
  · have := h.le_len
    rw [if_neg (by omega), he]

theorem of_readExpected (h : Looping ℓ c ps r) (h4 : 4 ≤ r) : Looping ℓ c.readExpected ps r := by
  refine ⟨?_, h.le_flatten, h.le_maxSize, ?_, h.le_len, h.len_le, ?_, .inr ⟨h.readExpected h4, h4⟩, h.frames⟩
  · rw [readExpected_bytesReceived]; exact h.bytesReceived
  · rw [readExpected_buffer, readExpected_nextPkt]; exact h.bytes
  · rw [readExpected_buffer]; exact h.front

theorem loopCond_of_le (h : Looping ℓ c ps r) (h4 : 4 ≤ r) (hl : ℓ ≤ r) : c.loopCond = true := by
  rw [loopCond_iff, h.bytesReceived]
  rcases h.expected with he | ⟨he, -⟩ <;> omega

theorem packetLoop_stall (h : Looping ℓ c ps r) (h4 : 4 ≤ r) (hl : r < ℓ) :
    packetLoop (fuel + 2) c = some (c.readExpected, []) := by
  have he := h.readExpected h4
  have hr := h.bytesReceived
  have hstop : c.readExpected.loopCond = false := by
    rw [← Bool.not_eq_true, loopCond_iff, readExpected_bytesReceived, he]; omega
  have hready : c.readExpected.pktReady = false := by
    rw [← Bool.not_eq_true, pktReady_iff, readExpected_bytesReceived, he]; omega
  cases hc : c.loopCond with
  | true => rw [packetLoop_wait hc hready, packetLoop_stop hstop]
  | false =>
    rcases h.expected with h0 | ⟨h0, -⟩
    · rw [← Bool.not_eq_true, loopCond_iff] at hc; omega
    · have hself : c.readExpected = c := by
        unfold ClientData.readExpected
        have := h.le_len
        rw [if_neg (by omega)]
      rw [packetLoop_stop hc, hself]

theorem pktReady (h : Looping ℓ c ps r) (h4 : 4 ≤ r) (hl : ℓ ≤ r) : c.readExpected.pktReady = true := by
  rw [pktReady_iff, readExpected_bytesReceived, h.readExpected h4, h.bytesReceived]
  have := h.le_len
  omega

theorem pkt (h : Looping p.length c (p :: ps) r) (hp : p.length ≤ r) :
    c.readExpected.pkt = ⟨c.nextPkt, p.length, p⟩ := by
  have h4 : 4 ≤ r := by have := h.le_len; omega
  have hbytes : c.buffer.read c.nextPkt p.length = p := by
    rw [← Mem.take_read _ _ hp, h.bytes, List.take_take, Nat.min_eq_left hp, List.flatten_cons,
      List.take_left]
  rw [ClientData.pkt, readExpected_nextPkt, readExpected_buffer, h.readExpected h4, hbytes]

theorem consume (h : Looping p.length c (p :: ps) r) (hp : p.length ≤ r) :
    Looping p.length c.readExpected.consume ps (r - p.length) := by
  have h4 : 4 ≤ r := by have := h.le_len; omega
  have he := h.readExpected h4
  have hle := h.le_flatten
  have hmax := h.le_maxSize
  rw [List.flatten_cons, List.length_append] at hle
  refine ⟨?_, by omega, by omega, ?_, h.le_len, h.len_le, fun hr => ?_, .inl rfl,
    fun q hq => h.frames q (List.mem_cons_of_mem _ hq)⟩
  · show u32 ((c.readExpected.bytesReceived : Int) - c.readExpected.bytesExpected) = _
    unfold maxSize at hmax
    rw [he, readExpected_bytesReceived, h.bytesReceived, u32_sub hp (by omega)]
  · show c.readExpected.buffer.read (c.readExpected.nextPkt + c.readExpected.bytesExpected) _ = _
    rw [he, readExpected_nextPkt, readExpected_buffer, ← Mem.drop_read _ _ hp, h.bytes, List.drop_take,
      List.flatten_cons, List.drop_left]
  · show pktGetLength c.readExpected.buffer + 20 = _
    rw [readExpected_buffer]
    exact h.front h4

/-- The loop hands out exactly the completed frames when all of them, and the one that its length
field has arrived of, have the length that is at the front of the buffer. -/
theorem packetLoop (h : Looping ℓ c ps r) (hu : ∀ f ∈ headed 4 ps r, f.length = ℓ) (hf : r + 2 ≤ fuel) :
    ∃ c', packetLoop fuel c = some (c', pktsAt c.nextPkt (completed ps r)) ∧
      Looping ℓ c' (pending ps r) (leftover ps r) ∧
      (4 ≤ leftover ps r → ∀ p ∈ (pending ps r).head?, p.length = ℓ) := by
  induction ps generalizing c r fuel with
  | nil =>
    obtain ⟨fuel, rfl⟩ := Nat.exists_eq_add_of_le' (show 1 ≤ fuel by omega)
    have hr : r = 0 := by simpa using h.le_flatten
    have hc : c.loopCond = false := by
      rw [← Bool.not_eq_true, loopCond_iff, h.bytesReceived]; omega
    exact ⟨c, packetLoop_stop hc, h, fun _ q hq => by simp [pending] at hq⟩
  | cons p ps ih =>
    obtain ⟨fuel, rfl⟩ := Nat.exists_eq_add_of_le' (show 2 ≤ fuel by omega)
    rcases Nat.lt_or_ge r p.length with hlt | hge
    · rw [completed_of_lt hlt, pending_of_lt hlt, leftover_of_lt hlt]
      rcases Nat.lt_or_ge r 4 with h4 | h4
      · have hc : c.loopCond = false := by
          rw [← Bool.not_eq_true, loopCond_iff, h.bytesReceived]; omega
        exact ⟨c, packetLoop_stop hc, h, fun h4' => by omega⟩
      · have hp : p.length = ℓ := hu p (by simp [headed, h4])
        refine ⟨c.readExpected, h.packetLoop_stall h4 (hp ▸ hlt), h.of_readExpected h4, fun _ q hq => ?_⟩
        simp only [List.head?_cons, Option.mem_some_iff] at hq
        rw [← hq, hp]
    · have hle := (h.frames p List.mem_cons_self).le_length
      have h4 : 4 ≤ r := by omega
      obtain rfl : p.length = ℓ := hu p (by simp [headed, h4])
      have hu' : ∀ f ∈ headed 4 ps (r - p.length), f.length = p.length := fun f hf =>
        hu f (by simp [headed, h4, hge, hf])
      obtain ⟨c', hloop, hlooping, hhead⟩ := ih (h.consume hge) hu' (show r - p.length + 2 ≤ fuel + 1 by omega)
      rw [completed_of_le hge, pending_of_le hge, leftover_of_le hge]
      refine ⟨c', ?_, hlooping, hhead⟩
      have hnext : c.readExpected.consume.nextPkt = c.nextPkt + p.length := by
        show c.readExpected.nextPkt + c.readExpected.bytesExpected = _
        rw [readExpected_nextPkt, h.readExpected h4]
      rw [packetLoop_deliver (h.loopCond_of_le h4 hge) (h.pktReady h4 hge), hloop, h.pkt hge, hnext]
      rfl

end Looping

/-! ### A wrong length -/

/-- The first incomplete frame of the client is expected to have a length that it does not have. -/
structure Missized (c : ClientData) (ps : List (List UInt8)) (r : Nat) : Prop where
  bytesReceived : c.bytesReceived = r
  four_le : 4 ≤ r
  head_lt : ∃ p ∈ ps.head?, r < p.length ∧ c.bytesExpected ≠ p.length
  expected_ne : c.bytesExpected ≠ 0
  le_maxSize : r ≤ maxSize

section
open ClientData
variable {ℓ r fuel : Nat} {c c' : ClientData} {p chunk : List UInt8} {ps chunks : List (List UInt8)} {log : List Pkt}

theorem completed_cons_eq_nil {n : Nat} (h : ([] : List (List UInt8)) = completed (p :: ps) n) : n < p.length := by
  rcases Nat.lt_or_ge n p.length with hlt | hge
  · exact hlt
  · rw [completed_of_le hge] at h; cases h

theorem length_of_handed {pkt : Pkt} {n : Nat} (h : (pkt :: log).map Pkt.bytes = completed (p :: ps) n) :
    pkt.bytes.length = p.length := by
  rcases Nat.lt_or_ge n p.length with hlt | hge
  · rw [completed_of_lt hlt] at h; cases h
  · rw [completed_of_le hge, List.map_cons, List.cons.injEq] at h
    rw [h.1]

/-- A loop that meets the length field of a frame with another length than the frame at the front
hands out a wrong packet, or it leaves the client missized. -/
theorem Looping.missized (h : Looping ℓ c ps r) (hb : ∃ f ∈ headed 4 ps r, f.length ≠ ℓ)
    (hl : c.packetLoop fuel = some (c', log)) (hlog : log.map Pkt.bytes = completed ps r) :
    Missized c' (pending ps r) (leftover ps r) := by
  induction ps generalizing c r fuel log with
  | nil => obtain ⟨f, hf, -⟩ := hb; simp [headed] at hf
  | cons p ps ih =>
    have h4 : 4 ≤ r := by
      obtain ⟨f, hf, -⟩ := hb
      by_contra h4
      simp [headed, h4] at hf
    rcases Nat.lt_or_ge r ℓ with hlt | hge
    · -- nothing is handed out, so the first frame is not complete, and it is the one with another length
      have hl := packetLoop_mono hl (Nat.le_add_right fuel 2)
      rw [h.packetLoop_stall h4 hlt] at hl
      cases hl
      have hp := completed_cons_eq_nil hlog
      rw [pending_of_lt hp, leftover_of_lt hp]
      refine ⟨by rw [readExpected_bytesReceived, h.bytesReceived], h4, ⟨p, rfl, hp, ?_⟩, ?_, h.le_maxSize⟩
      · obtain ⟨f, hf, hne⟩ := hb
        have hfp : f = p := by simpa [headed, h4, Nat.not_le.2 hp] using hf
        rw [h.readExpected h4, ← hfp]; exact hne.symm
      · rw [h.readExpected h4]; omega
    · cases fuel with
      | zero => cases hl
      | succ fuel =>
        rw [packetLoop_deliver (h.loopCond_of_le h4 hge) (h.pktReady h4 hge), Option.map_eq_some_iff] at hl
        obtain ⟨⟨c', log⟩, hl, he⟩ := hl
        cases he
        have hp : ℓ = p.length := by
          rw [← length_of_handed hlog]
          show _ = (Mem.read ..).length
          rw [Mem.length_read, h.readExpected h4]
        subst hp
        have hb' : ∃ f ∈ headed 4 ps (r - p.length), f.length ≠ p.length := by
          obtain ⟨f, hf, hne⟩ := hb
          rw [headed, if_pos h4, if_pos hge, List.mem_cons] at hf
          rcases hf with rfl | hf
          · exact absurd rfl hne
          · exact ⟨f, hf, hne⟩
        rw [completed_of_le hge, List.map_cons, List.cons.injEq] at hlog
        rw [pending_of_le hge, leftover_of_le hge]
        exact ih (h.consume hge) hb' hl hlog.2

theorem Missized.packetLoop (h : ∃ p ∈ ps.head?, c.bytesExpected ≠ p.length) (he : c.bytesExpected ≠ 0)
    (hr : c.bytesReceived = r) (h4 : 4 ≤ r) (hmax : r ≤ maxSize) (hl : c.packetLoop fuel = some (c', log))
    (hlog : log.map Pkt.bytes = completed ps r) : Missized c' (pending ps r) (leftover ps r) := by
  obtain ⟨p, hp, hne⟩ := h
  obtain ⟨ps, rfl⟩ := List.head?_eq_some_iff.1 hp
  have hself : c.readExpected = c := if_neg fun hc => he hc.1
  cases fuel with
  | zero => cases hl
  | succ fuel =>
    rcases Nat.lt_or_ge r c.bytesExpected with hlt | hge
    · have hstop : c.loopCond = false := by
        rw [← Bool.not_eq_true, loopCond_iff]; omega
      rw [packetLoop_stop hstop] at hl
      cases hl
      have hrp := completed_cons_eq_nil hlog
      rw [pending_of_lt hrp, leftover_of_lt hrp]
      exact ⟨hr, h4, ⟨p, rfl, hrp, hne⟩, he, hmax⟩
    · have hready : c.readExpected.pktReady = true := by
        rw [pktReady_iff, hself]; omega
      rw [packetLoop_deliver (by rw [loopCond_iff]; omega) hready, Option.map_eq_some_iff] at hl
      obtain ⟨x, -, hx⟩ := hl
      cases hx
      have hlen := length_of_handed hlog
      rw [hself] at hlen
      exact absurd ((Mem.length_read ..).symm.trans hlen) hne

/-! ### From call to call -/

/-- Between two calls: `r` bytes of the first pending frame are at the front of the buffer. -/
structure Settled (c : ClientData) (ps : List (List UInt8)) (r : Nat) : Prop where
  bytesReceived : c.bytesReceived = r
  nextPkt : c.nextPkt = 0
  le_flatten : r ≤ ps.flatten.length
  head_lt : ∀ p ∈ ps.head?, r < p.length
  front : c.buffer.read 0 r = ps.flatten.take r
  expected : c.bytesExpected = 0 ∨ 4 ≤ r ∧ ∀ p ∈ ps.head?, c.bytesExpected = p.length
  frames : ∀ p ∈ ps, IsFrame p

theorem append_chunk_eq_take {rest : List UInt8} (h : chunk ++ rest = ps.flatten.drop r) (hr : r ≤ ps.flatten.length) :
    ps.flatten.take r ++ chunk = ps.flatten.take (r + chunk.length) ∧ r + chunk.length ≤ ps.flatten.length := by
  have hlen := congrArg List.length h
  rw [List.length_append, List.length_drop] at hlen
  refine ⟨?_, by omega⟩
  rw [List.take_add, ← h, List.take_left]

theorem bytesReceived_received (hr : c.bytesReceived = r) (hmax : r ≤ maxSize)
    (hfit : chunk.length ≤ c.bufferRemaining) :
    r + chunk.length ≤ maxSize ∧ (c.received chunk.length chunk).bytesReceived = r + chunk.length := by
  unfold maxSize at hmax
  simp only [bufferRemaining, hr, maxSize] at hfit
  rw [u32_sub (by omega) (by decide)] at hfit
  refine ⟨by unfold maxSize; omega, ?_⟩
  show u32 (c.bytesReceived + chunk.length : Int) = _
  rw [hr, ← Int.natCast_add, u32_of_lt (by omega)]

theorem Settled.looping (h : Settled c (p :: ps) r) (hfit : chunk.length ≤ c.bufferRemaining) {rest : List UInt8}
    (hrest : chunk ++ rest = (p :: ps).flatten.drop r) :
    Looping p.length (c.received chunk.length chunk) (p :: ps) (r + chunk.length) := by
  have hp := h.frames p List.mem_cons_self
  have hlt := h.head_lt p rfl
  have hmax := hp.length_le
  have hr := h.bytesReceived
  obtain ⟨htake, hle⟩ := append_chunk_eq_take hrest h.le_flatten
  obtain ⟨hfit', hrec⟩ := bytesReceived_received hr (show r ≤ maxSize by omega) hfit
  have hread : (c.received chunk.length chunk).buffer.read 0 (r + chunk.length) =
      (p :: ps).flatten.take (r + chunk.length) := by
    show (c.buffer.write c.bytesReceived chunk).read 0 _ = _
    have := Mem.read_write_append c.buffer 0 r chunk
    rw [Nat.zero_add] at this
    rw [hr, this, h.front, htake]
  refine ⟨hrec, hle, hfit', ?_, hp.le_length, hmax, fun h4 => ?_, ?_, h.frames⟩
  · show Mem.read _ c.nextPkt _ = _
    rw [h.nextPkt]; exact hread
  · have h20 := hp.le_length
    have hhead : (c.received chunk.length chunk).buffer.read 0 4 = p.take 4 := by
      rw [← Mem.take_read _ _ h4, hread, List.take_take, Nat.min_eq_left h4, List.flatten_cons,
        List.take_append_of_le_length (by omega)]
    rw [pktGetLength, getLength_eq, hhead, hp.header]
  · rcases h.expected with he | ⟨h4, he⟩
    · exact .inl he
    · exact .inr ⟨he p rfl, by omega⟩

theorem Looping.settled (h : Looping ℓ c (pending ps r) (leftover ps r))
    (hhead : 4 ≤ leftover ps r → ∀ p ∈ (pending ps r).head?, p.length = ℓ) :
    Settled c.relocate (pending ps r) (leftover ps r) := by
  refine ⟨h.bytesReceived, rfl, h.le_flatten, fun p hp => ?_, ?_, ?_, h.frames⟩
  · obtain ⟨ps', hps⟩ := List.head?_eq_some_iff.1 hp
    exact leftover_lt_of_pending hps
  · show Mem.read (if 0 < c.bytesReceived then _ else _) 0 _ = _
    have hr := h.bytesReceived
    split
    · rw [hr, Mem.read_copyDown, h.bytes]
    · have : leftover ps r = 0 := by omega
      rw [this]; rfl
  · rcases h.expected with he | ⟨he, h4⟩
    · exact .inl he
    · exact .inr ⟨h4, fun p hp => by rw [hhead h4 p hp]; exact he⟩

theorem receiveChunk_eq_some {r : ClientData × List Pkt} (h : c.receiveChunk chunk = some r) :
    ∃ fuel c', (c.received chunk.length chunk).packetLoop fuel = some (c', r.2) ∧ r.1 = c'.relocate := by
  obtain ⟨x, hx, rfl⟩ := Option.map_eq_some_iff.1 h
  exact ⟨_, x.1, hx, rfl⟩

theorem Settled.receiveChunk (h : Settled c ps r) (hne : ps ≠ []) (hfit : chunk.length ≤ c.bufferRemaining)
    {rest : List UInt8} (hrest : chunk ++ rest = ps.flatten.drop r)
    (hu : ∀ f ∈ headed 4 ps (r + chunk.length), ∀ g ∈ ps.head?, f.length = g.length) :
    ∃ c', c.receiveChunk chunk = some (c', pktsAt 0 (completed ps (r + chunk.length))) ∧
      Settled c' (pending ps (r + chunk.length)) (leftover ps (r + chunk.length)) := by
  obtain ⟨p, ps, rfl⟩ := List.exists_cons_of_ne_nil hne
  have hl := h.looping hfit hrest
  obtain ⟨c', hloop, hlooping, hhead⟩ := hl.packetLoop (fun f hf => hu f hf p rfl) (Nat.le_refl _)
  refine ⟨c'.relocate, ?_, hlooping.settled hhead⟩
  have hnext : (c.received chunk.length chunk).nextPkt = 0 := h.nextPkt
  rw [ClientData.receiveChunk, hl.bytesReceived, hloop, hnext]
  rfl

theorem Settled.missized (h : Settled c ps r) (hfit : chunk.length ≤ c.bufferRemaining) {rest : List UInt8}
    (hrest : chunk ++ rest = ps.flatten.drop r)
    (hb : ¬∀ f ∈ headed 4 ps (r + chunk.length), ∀ g ∈ ps.head?, f.length = g.length)
    (hl : c.receiveChunk chunk = some (c', log)) (hlog : log.map Pkt.bytes = completed ps (r + chunk.length)) :
    Missized c' (pending ps (r + chunk.length)) (leftover ps (r + chunk.length)) := by
  cases ps with
  | nil => exact absurd (fun f hf => by simp [headed] at hf) hb
  | cons p ps =>
    obtain ⟨fuel, c₁, hloop, rfl⟩ := receiveChunk_eq_some hl
    have hb' : ∃ f ∈ headed 4 (p :: ps) (r + chunk.length), f.length ≠ p.length := by
      by_contra hn
      refine hb fun f hf g hg => ?_
      obtain rfl : p = g := by simpa using hg
      by_contra hne
      exact hn ⟨f, hf, hne⟩
    have hm := (h.looping hfit hrest).missized hb' hloop hlog
    exact ⟨hm.bytesReceived, hm.four_le, hm.head_lt, hm.expected_ne, hm.le_maxSize⟩

theorem Missized.receiveChunk (h : Missized c ps r) (hfit : chunk.length ≤ c.bufferRemaining)
    (hl : c.receiveChunk chunk = some (c', log)) (hlog : log.map Pkt.bytes = completed ps (r + chunk.length)) :
    Missized c' (pending ps (r + chunk.length)) (leftover ps (r + chunk.length)) := by
  obtain ⟨fuel, c₁, hloop, rfl⟩ := receiveChunk_eq_some hl
  have h4 := h.four_le
  obtain ⟨hfit', hrec⟩ := bytesReceived_received h.bytesReceived h.le_maxSize hfit
  obtain ⟨p, hp, -, hne⟩ := h.head_lt
  have hne : (c.received chunk.length chunk).bytesExpected ≠ p.length := hne
  have he : (c.received chunk.length chunk).bytesExpected ≠ 0 := h.expected_ne
  have hm := Missized.packetLoop ⟨p, hp, hne⟩ he hrec (by omega) hfit' hloop hlog
  exact ⟨hm.bytesReceived, hm.four_le, hm.head_lt, hm.expected_ne, hm.le_maxSize⟩

/-! ### The whole stream -/

theorem Settled.reframed (h : Settled c ps r) : Reframed ps r c [] := by
  have hcomp : completed ps r = [] ∧ pending ps r = ps ∧ leftover ps r = r := by
    cases ps with
    | nil => exact ⟨rfl, rfl, rfl⟩
    | cons p ps =>
      have hlt := h.head_lt p rfl
      exact ⟨completed_of_lt hlt, pending_of_lt hlt, leftover_of_lt hlt⟩
  obtain ⟨hc, hp, hl⟩ := hcomp
  refine ⟨by rw [hc]; rfl, by simp, by rw [hl]; exact h.bytesReceived, h.nextPkt, ?_⟩
  rw [hl, hp]; exact h.front

theorem Reframes.head (h : Reframes c ps r (chunk :: chunks)) :
    ∃ c' log, c.receiveChunk chunk = some (c', log) ∧ log.map Pkt.bytes = completed ps (r + chunk.length) := by
  obtain ⟨c₂, logs, hrun, hR⟩ := h 1 (by simp)
  obtain ⟨⟨c₁, log⟩, hone, hrun⟩ := Option.bind_eq_some_iff.1 hrun
  cases hrun
  refine ⟨c₁, log, hone, ?_⟩
  have := hR.handed
  simpa using this

theorem Reframes.tail (h : Reframes c ps r (chunk :: chunks)) (hone : c.receiveChunk chunk = some (c', log))
    (hlog : log.map Pkt.bytes = completed ps (r + chunk.length)) :
    Reframes c' (pending ps (r + chunk.length)) (leftover ps (r + chunk.length)) chunks := by
  intro k hk
  obtain ⟨c₂, logs, hrun, hR⟩ := h (k + 1) (Nat.succ_le_succ hk)
  rw [List.take_succ_cons, receiveChunks, hone, Option.bind_some] at hrun
  obtain ⟨⟨c₃, logs⟩, hrest, he⟩ := Option.map_eq_some_iff.1 hrun
  cases he
  rw [List.take_succ_cons, List.flatten_cons, List.length_append, ← Nat.add_assoc] at hR
  refine ⟨_, logs, hrest, ?_, fun l hl => hR.placed l (List.mem_cons_of_mem _ hl), ?_, hR.nextPkt, ?_⟩
  · have := hR.handed
    rw [List.flatten_cons, List.map_append, completed_add, hlog] at this
    exact List.append_cancel_left this
  · rw [← leftover_add]; exact hR.bytesReceived
  · rw [← leftover_add, ← pending_add]; exact hR.front

theorem Reframes.cons (h0 : Reframed ps r c []) (hone : c.receiveChunk chunk = some (c', log))
    (hlog : log = pktsAt 0 (completed ps (r + chunk.length)))
    (h : Reframes c' (pending ps (r + chunk.length)) (leftover ps (r + chunk.length)) chunks) :
    Reframes c ps r (chunk :: chunks) := by
  intro k hk
  cases k with
  | zero => exact ⟨c, [], rfl, h0⟩
  | succ k =>
    obtain ⟨c₂, logs, hrun, hR⟩ := h k (Nat.le_of_succ_le_succ hk)
    have hbytes : log.map Pkt.bytes = completed ps (r + chunk.length) := by rw [hlog, map_bytes_pktsAt]
    refine ⟨c₂, log :: logs, ?_, ?_⟩
    · rw [List.take_succ_cons, receiveChunks, hone, Option.bind_some, hrun]; rfl
    · rw [List.take_succ_cons, List.flatten_cons, List.length_append, ← Nat.add_assoc]
      refine ⟨?_, fun l hl => ?_, ?_, hR.nextPkt, ?_⟩
      · rw [List.flatten_cons, List.map_append, hbytes, hR.handed, ← completed_add]
      · rcases List.mem_cons.1 hl with rfl | hl
        · rw [hbytes]; exact hlog
        · exact hR.placed l hl
      · rw [leftover_add]; exact hR.bytesReceived
      · rw [leftover_add ps (r + chunk.length), pending_add ps (r + chunk.length)]; exact hR.front

theorem drop_pending {rest : List UInt8} (h : chunk ++ rest = ps.flatten.drop r) (hr : r ≤ ps.flatten.length) :
    rest = (pending ps (r + chunk.length)).flatten.drop (leftover ps (r + chunk.length)) := by
  have hlen := length_flatten_completed ps (r + chunk.length)
  have hle := (append_chunk_eq_take h hr).2
  rw [flatten_pending, List.drop_drop, hlen, ← List.drop_drop, ← h, List.drop_left]

theorem Missized.not_reframes (h : Missized c ps r) (hle : r ≤ ps.flatten.length)
    (hs : chunks.flatten = ps.flatten.drop r) (hfit : ChunksFit c chunks) : ¬Reframes c ps r chunks := by
  induction chunks generalizing c ps r with
  | nil =>
    -- the whole stream is there, and yet its last frame is not complete
    obtain ⟨p, hp, hlt, -⟩ := h.head_lt
    obtain ⟨ps', rfl⟩ := List.head?_eq_some_iff.1 hp
    have := congrArg List.length hs
    simp at this
    omega
  | cons chunk chunks ih =>
    intro hR
    obtain ⟨-, hle', hfit'⟩ := hfit
    obtain ⟨c', log, hone, hlog⟩ := hR.head
    have hs : chunk ++ chunks.flatten = ps.flatten.drop r := hs
    exact ih (h.receiveChunk hle' hone hlog) (leftover_le_flatten_pending (append_chunk_eq_take hs hle).2)
      (drop_pending hs hle) (hfit' c' log hone) (hR.tail hone hlog)

theorem Settled.reframes_iff (h : Settled c ps r) (hs : chunks.flatten = ps.flatten.drop r)
    (hfit : ChunksFit c chunks) : Reframes c ps r chunks ↔ SameSize ps r chunks := by
  induction chunks generalizing c ps r with
  | nil =>
    refine ⟨fun _ => trivial, fun _ k hk => ⟨c, [], ?_, ?_⟩⟩
    · rw [List.take_nil]; rfl
    · rw [List.take_nil]; exact h.reframed
  | cons chunk chunks ih =>
    obtain ⟨hpos, hle', hfit'⟩ := hfit
    have hs : chunk ++ chunks.flatten = ps.flatten.drop r := hs
    have hrest := drop_pending hs h.le_flatten
    have hne : ps ≠ [] := by
      rintro rfl
      rw [List.flatten_nil, List.drop_nil, List.append_eq_nil_iff] at hs
      rw [hs.1] at hpos
      exact absurd hpos (by decide)
    by_cases hu : ∀ f ∈ headed 4 ps (r + chunk.length), ∀ g ∈ ps.head?, f.length = g.length
    · obtain ⟨c', hone, hset⟩ := h.receiveChunk hne hle' hs hu
      have hih := ih hset hrest (hfit' c' _ hone)
      constructor
      · intro hR
        exact ⟨hu, hih.1 (hR.tail hone (map_bytes_pktsAt ..))⟩
      · intro hS
        exact .cons h.reframed hone rfl (hih.2 hS.2)
    · refine ⟨fun hR => ?_, fun hS => absurd hS.1 hu⟩
      obtain ⟨c', log, hone, hlog⟩ := hR.head
      have hm := h.missized hle' hs hu hone hlog
      exact absurd (hR.tail hone hlog) (hm.not_reframes
        (leftover_le_flatten_pending (append_chunk_eq_take hs h.le_flatten).2) hrest (hfit' c' log hone))

theorem settled_register (c : ClientData) (fd : Int) (hframes : ∀ p ∈ ps, IsFrame p) :
    Settled (c.register fd) ps 0 := by
  refine ⟨rfl, rfl, Nat.zero_le _, fun p hp => ?_, rfl, .inl rfl, hframes⟩
  have := (hframes p (List.mem_of_mem_head? hp)).le_length
  omega

end

/-- A client's stream is re-framed exactly when, in every call, the frames whose length field has
arrived are as long as the frame at the front of the buffer: the loop reads every length there. -/
theorem reframes_iff_sameSize (c : ClientData) (fd : Int) (frames : List Frame) (chunks : List (List UInt8))
    (hs : chunks.flatten = (frames.map Frame.encode).flatten) (hfit : ChunksFit (c.register fd) chunks) :
    Reframes (c.register fd) (frames.map Frame.encode) 0 chunks ↔
      SameSize (frames.map Frame.encode) 0 chunks := by
  refine (settled_register c fd ?_).reframes_iff hs hfit
  intro p hp
  obtain ⟨f, -, rfl⟩ := List.mem_map.1 hp
  exact f.isFrame_encode

/-- Two packets without payload in one chunk. -/
theorem reframes_iff_sameSize_empty :
    Reframes (ClientData.register ⟨0, 0, 0, Mem.fill 0, 0⟩ 5)
      ([⟨.replicate 16 0, [], rfl, by decide⟩, ⟨.replicate 16 0, [], rfl, by decide⟩].map Frame.encode) 0
      [.replicate 40 0] := by
  refine (reframes_iff_sameSize ⟨0, 0, 0, Mem.fill 0, 0⟩ 5 _ [.replicate 40 0] (by decide) ?_).2 ⟨?_, trivial⟩
  · exact ⟨by decide, by decide, fun _ _ _ => trivial⟩
  · decide

/-- A packet without payload and one with a byte of payload in one chunk: the second one is handed
out with the length of the first, 20 bytes. -/
theorem not_reframes : ¬∀ (c : ClientData) (fd : Int) (frames : List Frame) (chunks : List (List UInt8)),
    chunks.flatten = (frames.map Frame.encode).flatten → ChunksFit (c.register fd) chunks →
    Reframes (c.register fd) (frames.map Frame.encode) 0 chunks := by
  intro h
  have hR := h ⟨0, 0, 0, Mem.fill 0, 0⟩ 5
    [⟨.replicate 16 0, [], rfl, by decide⟩, ⟨.replicate 16 0, [7], rfl, by decide⟩]
    [.replicate 23 0 ++ [1] ++ .replicate 16 0 ++ [7]] (by decide) ⟨by decide, by decide, fun _ _ _ => trivial⟩
  obtain ⟨c', logs, hrun, hlogs⟩ := hR 1 (Nat.le_refl 1)
  have hlens : ((ClientData.receiveChunks (ClientData.register ⟨0, 0, 0, Mem.fill 0, 0⟩ 5)
      [.replicate 23 0 ++ [1] ++ .replicate 16 0 ++ [7]]).map fun r => r.2.flatten.map fun p => p.bytes.length) =
      some [20, 20] := by decide +kernel
  have hhanded := congrArg (List.map List.length) hlogs.handed
  rw [List.map_map] at hhanded
  have hrun' := congrArg (Option.map fun r => r.2.flatten.map fun p => p.bytes.length) hrun
  rw [List.take_of_length_le (Nat.le_refl 1), hlens] at hrun'
  have h20 : [20, 20] = logs.flatten.map fun p => p.bytes.length := Option.some.inj hrun'
  exact absurd (h20.trans hhanded) (by decide)

end Bcaster
end WlanxVms
