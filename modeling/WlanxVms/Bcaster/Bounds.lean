import WlanxVms.Bcaster.Client
import WlanxVms.Lib.Machine

/-!
# Bounds and termination of the receiver of bcaster (`repeat_receiving_function` of `main.c`)

`packetLoop_ends_iff` is about the `while` alone, from any client state; `RecvSys` runs whole calls, an
iteration at a time, with any results of `lisa_recv_part2`. The expected length is the declared length
plus 20 in 32 bits, where 0 means that it is not known: a declared length of `2 ^ 32 - 20` is read for
ever and a larger one gives a packet without its header. A packet that the buffer cannot hold leaves no
space for the next `recv`, and a failed `recv` takes one from `bytes_received`.
-/

namespace WlanxVms
namespace Bcaster
namespace ClientData

variable {c d : ClientData} {fuel : Nat}

/-- One iteration of the `while` -/
def round (c : ClientData) : ClientData :=
  if c.readExpected.pktReady then c.readExpected.consume else c.readExpected

/-- The call of `process_pkt` in the iteration -/
def roundPkt (c : ClientData) : Option Pkt :=
  if c.readExpected.pktReady then some c.readExpected.pkt else none

theorem round_of_ready (h : c.readExpected.pktReady = true) : c.round = c.readExpected.consume := if_pos h

theorem round_of_not_ready (h : c.readExpected.pktReady = false) : c.round = c.readExpected :=
  if_neg (by simp [h])

theorem packetLoop_round (h : c.loopCond = true) :
    packetLoop (fuel + 1) c = (packetLoop fuel c.round).map fun r => (r.1, c.roundPkt.toList ++ r.2) := by
  cases hready : c.readExpected.pktReady with
  | true => simp [packetLoop_deliver h hready, round_of_ready hready, roundPkt, hready]
  | false => simp [packetLoop_wait h hready, round_of_not_ready hready, roundPkt, hready]

/-! ### The loop -/

/-- The loop ends. -/
def Ends (c : ClientData) : Prop := ∃ fuel r, packetLoop fuel c = some r

/-- The states in which the loop from `c` begins an iteration -/
inductive Enters (c : ClientData) : ClientData → Prop
  | start (h : c.loopCond = true) : c.Enters c
  | next {d : ClientData} (h : c.Enters d) (hc : d.round.loopCond = true) : c.Enters d.round

/-- The iteration consumes a byte, or it is the last one. -/
def Progress (c : ClientData) : Prop := c.round.bytesReceived < c.bytesReceived ∨ c.round.loopCond = false

/-- The loop comes to read a length that is zero with the header. -/
def Stuck (c : ClientData) : Prop :=
  pktGetLength c.buffer + 20 = 4294967296 ∧ c.bytesExpected + 4 ≤ c.bytesReceived

instance (c : ClientData) : Decidable c.Stuck := inferInstanceAs (Decidable (_ ∧ _))

theorem Ends.of_round (h : c.round.Ends) : c.Ends := by
  cases hc : c.loopCond with
  | false => exact ⟨1, _, packetLoop_stop hc⟩
  | true =>
    obtain ⟨fuel, r, hr⟩ := h
    exact ⟨fuel + 1, _, by rw [packetLoop_round hc, hr]; rfl⟩

theorem readExpected_bytesExpected (h : c.loopCond = true) :
    c.readExpected.bytesExpected =
      if c.bytesExpected = 0 then u32 (pktGetLength c.buffer + 20) else c.bytesExpected := by
  have h4 := (loopCond_iff.1 h).1
  unfold readExpected
  by_cases h0 : c.bytesExpected = 0
  · rw [if_pos ⟨h0, h4⟩, if_pos h0]
  · rw [if_neg (by simp [h0]), if_neg h0]

theorem round_buffer : c.round.buffer = c.buffer := by
  unfold round
  split
  · exact readExpected_buffer
  · exact readExpected_buffer

theorem consume_bytesReceived (h : c.pktReady = true) (hmax : c.bytesReceived ≤ maxSize) :
    c.consume.bytesReceived = c.bytesReceived - c.bytesExpected := by
  have hle := (pktReady_iff.1 h).2
  unfold maxSize at hmax
  exact u32_sub hle (by omega)

theorem round_le (hmax : c.bytesReceived ≤ maxSize) : c.round.bytesReceived ≤ c.bytesReceived := by
  cases hready : c.readExpected.pktReady with
  | true =>
    rw [round_of_ready hready, consume_bytesReceived hready (by rwa [readExpected_bytesReceived]),
      readExpected_bytesReceived]
    exact Nat.sub_le ..
  | false => exact Nat.le_of_eq (by rw [round_of_not_ready hready, readExpected_bytesReceived])

/-- An iteration that knows how long the packet is consumes it or waits for the rest. -/
theorem progress (hne : c.readExpected.bytesExpected ≠ 0) (hmax : c.bytesReceived ≤ maxSize) : c.Progress := by
  cases hready : c.readExpected.pktReady with
  | true =>
    have hle := (pktReady_iff.1 hready).2
    rw [readExpected_bytesReceived] at hle
    left
    rw [round_of_ready hready, consume_bytesReceived hready (by rwa [readExpected_bytesReceived]),
      readExpected_bytesReceived]
    omega
  | false =>
    right
    rw [round_of_not_ready hready, ← Bool.not_eq_true, loopCond_iff]
    rw [← Bool.not_eq_true, pktReady_iff] at hready
    exact fun h => hready ⟨hne, h.2⟩

theorem round_of_known (hc : c.loopCond = true) (h0 : c.bytesExpected ≠ 0) : c.round = c.consume := by
  have hself : c.readExpected = c := if_neg (by simp [h0])
  have hready : c.pktReady = true := pktReady_iff.2 ⟨h0, (loopCond_iff.1 hc).2⟩
  rw [round_of_ready (by rw [hself]; exact hready), hself]

theorem pktGetLength_lt (m : Mem UInt8) : pktGetLength m < 4294967296 := by
  have h := beValue_lt (m.read 0 4)
  rw [Mem.length_read] at h
  rw [pktGetLength, getLength_eq]
  exact h

theorem u32_length_eq_zero (m : Mem UInt8) : u32 (pktGetLength m + 20) = 0 ↔ pktGetLength m + 20 = 4294967296 := by
  have hlt := pktGetLength_lt m
  unfold u32
  omega

theorem readExpected_ne_zero (hc : c.loopCond = true) (h : ¬c.Stuck) : c.readExpected.bytesExpected ≠ 0 := by
  rw [readExpected_bytesExpected hc]
  split
  · next h0 =>
    rw [Ne, u32_length_eq_zero]
    exact fun hlen => h ⟨hlen, by rw [h0]; exact (loopCond_iff.1 hc).1⟩
  · next h0 => exact h0

theorem Stuck.round (h : c.Stuck) (hmax : c.bytesReceived ≤ maxSize) : c.loopCond = true ∧ c.round.Stuck := by
  obtain ⟨hlen, hle⟩ := h
  have hc : c.loopCond = true := loopCond_iff.2 ⟨by omega, by omega⟩
  refine ⟨hc, by rwa [round_buffer], ?_⟩
  by_cases h0 : c.bytesExpected = 0
  · have hread : c.readExpected.bytesExpected = 0 := by
      rw [readExpected_bytesExpected hc, if_pos h0, u32_length_eq_zero]
      exact hlen
    have hself := readExpected_eq_self hread
    have hready : c.readExpected.pktReady = false := by rw [hself, ← Bool.not_eq_true, pktReady_iff]; simp [h0]
    rw [round_of_not_ready hready, hself]
    exact hle
  · have hready : c.pktReady = true := pktReady_iff.2 ⟨h0, by omega⟩
    rw [round_of_known hc h0, consume_bytesReceived hready hmax]
    show 0 + 4 ≤ _
    omega

theorem not_stuck_round (h : ¬c.Stuck) (hc : c.loopCond = true) (hmax : c.bytesReceived ≤ maxSize) :
    ¬c.round.Stuck := by
  rintro ⟨hlen, hle⟩
  rw [round_buffer] at hlen
  have hne : c.bytesExpected ≠ 0 := fun h0 => h ⟨hlen, by rw [h0]; exact (loopCond_iff.1 hc).1⟩
  have hready : c.pktReady = true := pktReady_iff.2 ⟨hne, (loopCond_iff.1 hc).2⟩
  rw [round_of_known hc hne, consume_bytesReceived hready hmax] at hle
  exact h ⟨hlen, by change 0 + 4 ≤ _ at hle; omega⟩

theorem Stuck.not_ends (h : c.Stuck) (hmax : c.bytesReceived ≤ maxSize) : ¬c.Ends := by
  rintro ⟨fuel, r, hr⟩
  induction fuel generalizing c r with
  | zero => cases hr
  | succ fuel ih =>
    obtain ⟨hc, hround⟩ := h.round hmax
    rw [packetLoop_round hc, Option.map_eq_some_iff] at hr
    obtain ⟨x, hx, -⟩ := hr
    exact ih hround (Nat.le_trans (round_le hmax) hmax) x hx

/-- Induction on the bytes that are left: an iteration consumes some of them or is the last. -/
theorem ends_of_not_stuck (h : ¬c.Stuck) (hmax : c.bytesReceived ≤ maxSize) : c.Ends := by
  induction hb : c.bytesReceived using Nat.strongRecOn generalizing c with
  | ind b ih =>
    cases hc : c.loopCond with
    | false => exact ⟨1, _, packetLoop_stop hc⟩
    | true =>
      refine .of_round ?_
      rcases progress (readExpected_ne_zero hc h) hmax with hlt | hstop
      · exact ih _ (hb ▸ hlt) (not_stuck_round h hc hmax) (Nat.le_trans (Nat.le_of_lt hlt) hmax) rfl
      · exact ⟨1, _, packetLoop_stop hstop⟩

theorem Enters.not_stuck (h : c.Enters d) (hc : ¬c.Stuck) (hmax : c.bytesReceived ≤ maxSize) :
    d.loopCond = true ∧ ¬d.Stuck ∧ d.bytesReceived ≤ maxSize := by
  induction h with
  | start h => exact ⟨h, hc, hmax⟩
  | next h hd ih =>
    obtain ⟨hcond, hstuck, hle⟩ := ih
    exact ⟨hd, not_stuck_round hstuck hcond hle, Nat.le_trans (round_le hle) hle⟩

end ClientData

/-- The `while` ends, each iteration consuming a byte or being the last, unless it comes to read a length
that is zero with the header. -/
theorem packetLoop_ends_iff (c : ClientData) (h : c.bytesReceived ≤ maxSize) :
    (c.Ends ∧ ∀ d, c.Enters d → d.Progress) ↔
      ¬(pktGetLength c.buffer + 20 = 4294967296 ∧ c.bytesExpected + 4 ≤ c.bytesReceived) := by
  constructor
  · rintro ⟨hends, -⟩ hstuck
    exact ClientData.Stuck.not_ends hstuck h hends
  · intro hstuck
    refine ⟨ClientData.ends_of_not_stuck hstuck h, fun d hd => ?_⟩
    obtain ⟨hcond, hstuck, hle⟩ := hd.not_stuck hstuck h
    exact ClientData.progress (ClientData.readExpected_ne_zero hcond hstuck) hle

theorem packetLoop_ends_iff_short :
    (ClientData.Ends ⟨5, 0, 4, Mem.fill 255, 0⟩ ∧
      ∀ d, ClientData.Enters ⟨5, 0, 4, Mem.fill 255, 0⟩ d → d.Progress) ↔
    ¬(pktGetLength (Mem.fill 255) + 20 = 4294967296 ∧ 0 + 4 ≤ 4) :=
  packetLoop_ends_iff ⟨5, 0, 4, Mem.fill 255, 0⟩ (by decide)

/-- Four bytes with the length `2 ^ 32 - 20` -/
theorem not_packetLoop_ends : ¬ClientData.Ends ⟨5, 0, 4, (Mem.fill 255).set 3 236, 0⟩ :=
  ClientData.Stuck.not_ends (by decide) (by decide)

/-! ### Whole runs -/

/-- The receiver of one client, at its `recv` or in the loop after it, and the calls of `process_pkt` it made -/
structure RecvSys where
  c : ClientData
  looping : Bool
  pkts : List Pkt

inductive RecvAct where
  | recv (rc : Int) (bs : List UInt8)
  | round
  | relocate

namespace RecvSys

def init (c : ClientData) (fd : Int) : RecvSys := { c := c.register fd, looping := false, pkts := [] }

/-- `recv` fails and stores nothing, or stores what it returns. -/
def Received (c : ClientData) (rc : Int) (bs : List UInt8) : Prop :=
  rc = -1 ∧ bs = [] ∨ rc = bs.length ∧ bs.length ≤ c.bufferRemaining

instance (c : ClientData) (rc : Int) (bs : List UInt8) : Decidable (Received c rc bs) :=
  inferInstanceAs (Decidable (_ ∨ _))

def step (s : RecvSys) : RecvAct → Option RecvSys
  | .recv rc bs =>
    if s.looping = false ∧ Received s.c rc bs then some { s with c := s.c.received rc bs, looping := true }
    else none
  | .round =>
    if s.looping ∧ s.c.loopCond then some { s with c := s.c.round, pkts := s.pkts ++ s.c.roundPkt.toList } else none
  | .relocate =>
    if s.looping ∧ s.c.loopCond = false then some { s with c := s.c.relocate, looping := false } else none

theorem path_packetLoop {c : ClientData} {fuel : Nat} {r : ClientData × List Pkt} (pkts : List Pkt)
    (h : c.packetLoop fuel = some r) :
    ∃ n, Path step AnyStep { c, looping := true, pkts } (List.replicate n .round)
      { c := r.1, looping := true, pkts := pkts ++ r.2 } ∧ r.1.loopCond = false := by
  induction fuel generalizing c pkts r with
  | zero => cases h
  | succ fuel ih =>
    cases hc : c.loopCond with
    | false =>
      rw [ClientData.packetLoop_stop hc] at h
      cases h
      refine ⟨0, ?_, hc⟩
      rw [List.append_nil]
      exact .nil _
    | true =>
      rw [ClientData.packetLoop_round hc, Option.map_eq_some_iff] at h
      obtain ⟨x, hx, rfl⟩ := h
      obtain ⟨n, hpath, hstop⟩ := ih (pkts ++ c.roundPkt.toList) hx
      refine ⟨n + 1, .cons trivial (if_pos ⟨rfl, hc⟩) ?_, hstop⟩
      rw [← List.append_assoc]
      exact hpath

theorem path_receiveChunk {c : ClientData} {chunk : List UInt8} {r : ClientData × List Pkt} (pkts : List Pkt)
    (h : c.receiveChunk chunk = some r) (hfits : chunk.length ≤ c.bufferRemaining) :
    ∃ n, Path step AnyStep { c, looping := false, pkts }
      (.recv chunk.length chunk :: (List.replicate n .round ++ [.relocate]))
      { c := r.1, looping := false, pkts := pkts ++ r.2 } := by
  obtain ⟨x, hx, rfl⟩ := Option.map_eq_some_iff.1 h
  obtain ⟨n, hpath, hstop⟩ := path_packetLoop pkts hx
  exact ⟨n, .cons trivial (if_pos ⟨rfl, .inr ⟨rfl, hfits⟩⟩) (hpath.append (.single trivial (if_pos ⟨rfl, hstop⟩)))⟩

/-- The ranges that `process_pkt` was called with, and those that the next `recv` and the next relocation
touch, are inside the buffer. -/
structure Safe (s : RecvSys) : Prop where
  bytes : s.c.bytesReceived ≤ maxSize
  space : s.looping = false → 1 ≤ s.c.bufferRemaining ∧ s.c.bytesReceived + s.c.bufferRemaining ≤ maxSize
  pkts : ∀ p ∈ s.pkts, p.pkt + p.pktLen ≤ maxSize ∧ 20 ≤ p.pktLen
  relocate : s.looping = true → s.c.loopCond = false → s.c.nextPkt + s.c.bytesReceived ≤ maxSize

/-- The first packet in the buffer fits into it. -/
def FrontFits (c : ClientData) : Prop :=
  if c.bytesExpected = 0 then pktGetLength c.buffer + 20 ≤ maxSize else c.bytesExpected ≤ maxSize

instance (c : ClientData) : Decidable (FrontFits c) := by unfold FrontFits; infer_instance

/-- `recv` does not fail on an empty buffer, a full buffer begins with a packet that it can hold, and no
length that is read exceeds 32 bits with the header. -/
def Harmless (s : RecvSys) : RecvAct → Prop
  | .recv rc bs => (s.c.bytesReceived = 0 → rc ≠ -1) ∧
      (s.c.bytesReceived + bs.length = maxSize → FrontFits (s.c.received rc bs))
  | .round => s.c.bytesExpected = 0 → pktGetLength s.c.buffer + 20 < 4294967296
  | .relocate => True

instance (s : RecvSys) : (a : RecvAct) → Decidable (Harmless s a)
  | .recv _ _ => inferInstanceAs (Decidable ((_ → _ ≠ _) ∧ (_ → _)))
  | .round => inferInstanceAs (Decidable (_ → _))
  | .relocate => .isTrue trivial

/-- The cursor and the bytes left stay inside the buffer; a full buffer begins with a packet that fits. -/
structure Bounded (s : RecvSys) : Prop where
  inBuffer : s.c.nextPkt + s.c.bytesReceived ≤ maxSize
  expected : s.c.bytesExpected = 0 ∨ 20 ≤ s.c.bytesExpected
  front : s.looping = false → s.c.nextPkt = 0 ∧ s.c.bytesReceived < maxSize
  full : s.c.bytesReceived = maxSize → FrontFits s.c
  pkts : ∀ p ∈ s.pkts, p.pkt + p.pktLen ≤ maxSize ∧ 20 ≤ p.pktLen

variable {s t : RecvSys} {a : RecvAct} {rc : Int} {bs : List UInt8}

theorem Bounded.init (c : ClientData) (fd : Int) : (RecvSys.init c fd).Bounded where
  inBuffer := Nat.zero_le _
  expected := .inl rfl
  front _ := ⟨rfl, Nat.zero_lt_succ _⟩
  full h := by cases h
  pkts p h := by cases h

theorem bufferRemaining_eq {c : ClientData} (h : c.bytesReceived ≤ maxSize) :
    c.bufferRemaining = maxSize - c.bytesReceived :=
  u32_sub h (by decide)

theorem received_bytes (hlt : s.c.bytesReceived < maxSize) (hrecv : Received s.c rc bs)
    (hfail : s.c.bytesReceived = 0 → rc ≠ -1) :
    (s.c.received rc bs).bytesReceived ≤ maxSize ∧
      ((s.c.received rc bs).bytesReceived = maxSize → s.c.bytesReceived + bs.length = maxSize) := by
  have hmax : maxSize = 3000 := rfl
  have hbytes : (s.c.received rc bs).bytesReceived = u32 (s.c.bytesReceived + rc) := rfl
  unfold u32 at hbytes
  rcases hrecv with ⟨rfl, rfl⟩ | ⟨rfl, hle⟩
  · have hpos : s.c.bytesReceived ≠ 0 := fun h0 => hfail h0 rfl
    simp only [List.length_nil]
    omega
  · rw [bufferRemaining_eq (Nat.le_of_lt hlt)] at hle
    omega

theorem Bounded.recv (h : s.Bounded) (hloop : s.looping = false) (hrecv : Received s.c rc bs)
    (hG : s.Harmless (.recv rc bs)) : Bounded { s with c := s.c.received rc bs, looping := true } := by
  obtain ⟨hnext, hlt⟩ := h.front hloop
  obtain ⟨hfail, hfull⟩ := hG
  obtain ⟨hle, hfills⟩ := received_bytes hlt hrecv hfail
  refine ⟨?_, h.expected, nofun, fun h => hfull (hfills h), h.pkts⟩
  show s.c.nextPkt + (s.c.received rc bs).bytesReceived ≤ _
  omega

theorem Bounded.header_le (h : s.Bounded) (hc : s.c.loopCond = true) (hG : s.Harmless .round) :
    20 ≤ s.c.readExpected.bytesExpected ∧ (FrontFits s.c → s.c.readExpected.bytesExpected ≤ maxSize) := by
  rw [ClientData.readExpected_bytesExpected hc, FrontFits]
  split
  · next h0 =>
    have hlt : pktGetLength s.c.buffer + 20 < 4294967296 := hG h0
    have heq : u32 (pktGetLength s.c.buffer + 20) = pktGetLength s.c.buffer + 20 := u32_of_lt hlt
    rw [heq]
    exact ⟨Nat.le_add_left .., id⟩
  · next h0 => exact ⟨h.expected.resolve_left h0, id⟩

theorem Bounded.round (h : s.Bounded) (hloop : s.looping = true) (hc : s.c.loopCond = true)
    (hG : s.Harmless .round) :
    Bounded { s with c := s.c.round, pkts := s.pkts ++ s.c.roundPkt.toList } := by
  obtain ⟨hheader, hfits⟩ := h.header_le hc hG
  have hin := h.inBuffer
  have hfront : s.looping = false → s.c.round.nextPkt = 0 ∧ s.c.round.bytesReceived < maxSize := by
    rw [hloop]
    exact nofun
  cases hready : s.c.readExpected.pktReady with
  | true =>
    have hle := (ClientData.pktReady_iff.1 hready).2
    have hround := ClientData.round_of_ready hready
    have hbytes : s.c.round.bytesReceived = s.c.bytesReceived - s.c.readExpected.bytesExpected := by
      rw [hround, ClientData.consume_bytesReceived hready, ClientData.readExpected_bytesReceived]
      rw [ClientData.readExpected_bytesReceived]
      omega
    rw [ClientData.readExpected_bytesReceived] at hle
    refine ⟨?_, .inl ?_, hfront, fun hfull => ?_, fun p hp => ?_⟩
    · show s.c.round.nextPkt + s.c.round.bytesReceived ≤ _
      rw [hbytes, hround]
      show s.c.readExpected.nextPkt + _ + _ ≤ _
      rw [ClientData.readExpected_nextPkt]
      omega
    · show s.c.round.bytesExpected = 0
      rw [hround]
      rfl
    · change s.c.round.bytesReceived = _ at hfull
      omega
    · rw [ClientData.roundPkt, if_pos hready] at hp
      rcases List.mem_append.1 hp with hp | hp
      · exact h.pkts p hp
      · obtain rfl := List.mem_singleton.1 hp
        refine ⟨?_, hheader⟩
        show s.c.readExpected.nextPkt + s.c.readExpected.bytesExpected ≤ _
        rw [ClientData.readExpected_nextPkt]
        omega
  | false =>
    have hround := ClientData.round_of_not_ready hready
    rw [ClientData.roundPkt, if_neg (by simp [hready]), Option.toList_none, List.append_nil]
    rw [hround] at hfront ⊢
    refine ⟨?_, .inr hheader, hfront, fun hfull => ?_, h.pkts⟩
    · show s.c.readExpected.nextPkt + s.c.readExpected.bytesReceived ≤ _
      rw [ClientData.readExpected_nextPkt, ClientData.readExpected_bytesReceived]
      exact hin
    · rw [FrontFits, if_neg (by show ¬s.c.readExpected.bytesExpected = 0; omega)]
      exact hfits (h.full ((ClientData.readExpected_bytesReceived (c := s.c)).symm.trans hfull))

/-- When the loop ends, a full buffer would begin with a packet that it does not hold. -/
theorem Bounded.relocate (h : s.Bounded) (hc : s.c.loopCond = false) :
    Bounded { s with c := s.c.relocate, looping := false } := by
  have hin := h.inBuffer
  have hlt : s.c.bytesReceived < maxSize := by
    refine Nat.lt_of_le_of_ne (by omega) fun hfull => ?_
    have hfits := h.full hfull
    rw [← Bool.not_eq_true, ClientData.loopCond_iff, hfull] at hc
    unfold FrontFits at hfits
    have hmax : maxSize = 3000 := rfl
    split at hfits
    · omega
    · omega
  refine ⟨?_, h.expected, fun _ => ⟨rfl, hlt⟩, fun hfull => ?_, h.pkts⟩
  · show 0 + s.c.bytesReceived ≤ _
    omega
  · exact absurd hfull (Nat.ne_of_lt hlt)

theorem Bounded.step (h : s.Bounded) (hs : s.step a = some t) (hG : s.Harmless a) : t.Bounded := by
  cases a with
  | recv rc bs =>
    simp only [RecvSys.step] at hs
    split at hs
    · next hen =>
      cases hs
      exact h.recv hen.1 hen.2 hG
    · cases hs
  | round =>
    simp only [RecvSys.step] at hs
    split at hs
    · next hen =>
      cases hs
      exact h.round hen.1 hen.2 hG
    · cases hs
  | relocate =>
    simp only [RecvSys.step] at hs
    split at hs
    · next hen =>
      cases hs
      exact h.relocate hen.2
    · cases hs

theorem Bounded.safe (h : s.Bounded) : s.Safe := by
  have hin := h.inBuffer
  refine ⟨by omega, fun hloop => ?_, h.pkts, fun _ _ => hin⟩
  obtain ⟨-, hlt⟩ := h.front hloop
  rw [bufferRemaining_eq (Nat.le_of_lt hlt)]
  omega

end RecvSys

/-- In every run whose steps are harmless the accesses to the buffer are inside it and there is space for the
next `recv`. -/
theorem receiveBuffer_safe (c : ClientData) (fd : Int) (acts : List RecvAct) (s : RecvSys)
    (h : Path RecvSys.step RecvSys.Harmless (RecvSys.init c fd) acts s) : s.Safe :=
  (h.invariant RecvSys.Bounded (fun _ _ _ hi hG hs => hi.step hs hG) (.init c fd)).safe

/-- Two packets without payload in three chunks, and a failure after the first of these -/
theorem receiveBuffer_safe_two : ∃ s,
    Path RecvSys.step RecvSys.Harmless (RecvSys.init ⟨0, 0, 0, Mem.fill 0, 0⟩ 5)
      [.recv 7 (List.replicate 7 0), .round, .relocate, .recv (-1) [], .relocate,
        .recv 30 (List.replicate 30 0), .round, .round, .relocate, .recv 4 (List.replicate 4 0), .round, .relocate] s ∧
      s.Safe :=
  ⟨_, .of_run (by decide +kernel), receiveBuffer_safe ⟨0, 0, 0, Mem.fill 0, 0⟩ 5 _ _ (.of_run (by decide +kernel))⟩

/-- A failure on an empty buffer, a declared length of `2 ^ 32 - 1`, and one of 2981 -/
theorem not_receiveBuffer_safe :
    (∃ s, Path RecvSys.step AnyStep (RecvSys.init ⟨0, 0, 0, Mem.fill 0, 0⟩ 5) [.recv (-1) []] s ∧ ¬s.Safe) ∧
    (∃ s, Path RecvSys.step AnyStep (RecvSys.init ⟨0, 0, 0, Mem.fill 0, 0⟩ 5)
      [.recv 19 (List.replicate 19 255), .round] s ∧ ¬s.Safe) ∧
    ∃ s, Path RecvSys.step AnyStep (RecvSys.init ⟨0, 0, 0, Mem.fill 0, 0⟩ 5)
      [.recv 3000 (beBytes 4 2981 ++ List.replicate 2996 0), .round, .relocate] s ∧ ¬s.Safe := by
  refine ⟨⟨_, .of_run (by decide +kernel), fun h => ?_⟩, ⟨_, .of_run (by decide +kernel), fun h => ?_⟩,
    ⟨_, .of_run (by decide +kernel), fun h => ?_⟩⟩
  · exact absurd h.bytes (by decide +kernel)
  · exact absurd h.pkts (by decide +kernel)
  · exact absurd (h.space (by decide +kernel)).1 (by decide +kernel)

end Bcaster
end WlanxVms
