import WlanxVms.Bcaster.Failure
import WlanxVms.Bcaster.Reframe
import WlanxVms.Lib.Broadcast

/-!
# The bcaster is a bus

Each client sends a stream of frames, and the two threads accept clients, cut the streams into packets and cast these.
While nothing goes wrong that is known to (`Orderly`), a run is one of the bus of `Broadcast`: an accepted connection
joins, and a `lisa_cast` that ends publishes its packet. What a client has published are frames of its stream, in
order, and the frames that were received as a whole when the receiver waits for the next `recv`; what its socket took
is what a member of the bus hears.
-/

namespace WlanxVms
namespace Bcaster
open Framing Broadcast

/-- The frames that the client with the descriptor `fd` sends -/
def stream (F : Int → List Frame) (fd : Int) : List (List UInt8) := (F fd).map Frame.encode

/-- The threads, and how many bytes were received from each client -/
structure Metered where
  sys : Sys
  got : Int → Nat

/-! ### Nothing fails -/

section
open Lisa
variable {l : Lisa}

theorem clientState_lisaSetupTcp (h : l.clientState ≠ .error) (o : ListenOutcome) :
    (l.lisaSetupTcp o).clientState ≠ .error := by
  unfold lisaSetupTcp lisaSetNonblocking
  split_ifs
  · exact h
  · exact h
  · nofun
  · nofun

theorem clientState_lisaSetupUdp (l : Lisa) (o : ListenOutcome) : (l.lisaSetupUdp o).clientState = l.clientState := by
  unfold lisaSetupUdp
  split_ifs <;> rfl

theorem clientState_listenBind (l : Lisa) (o : ListenOutcome) : (l.listenBind o).clientState = l.clientState := by
  unfold listenBind
  simp only
  split_ifs <;> rfl

theorem clientState_acceptPre (h : l.clientState ≠ .error) (o : ListenOutcome) :
    (l.acceptPre o).1.clientState ≠ .error := by
  have hlisten : (l.lisaListen o).clientState ≠ .error := by
    unfold lisaListen
    simp only
    split_ifs
    · exact h
    · rw [clientState_listenBind, clientState_lisaSetupUdp]; exact h
    · rw [clientState_listenBind]; exact clientState_lisaSetupTcp (by exact h) o
    · rw [clientState_listenBind]; exact h
  unfold acceptPre
  simp only
  split_ifs
  · exact h
  · exact hlisten
  · exact hlisten
  · exact h

end

/-- No call of the operating system fails. -/
def Act.quiet : Act → Bool
  | .listener (.acceptPre o) => o.ok
  | .listener (.acceptPost .selectFails) => false
  | .listener (.acceptPost .notSet) => false
  | .receiver (.part2 rc _) => 0 ≤ rc
  | .receiver (.send outs) => outs.all SendOutcome.ok
  | _ => true

namespace Sys
variable {s t : Sys}

structure Calm (s : Sys) : Prop where
  failInv : ∀ f, s.FailInv f
  clientState : s.lp.clientState ≠ .error

theorem isSet_of_ok {outs : List SendOutcome} (h : outs.all SendOutcome.ok = true) :
    outs.all SendOutcome.isSet = true := by
  rw [List.all_eq_true] at h ⊢
  intro o ho
  cases o with
  | notSet => exact absurd (h _ ho) (by decide)
  | _ => rfl

theorem result_nonneg {outs : List SendOutcome} (h : outs.all SendOutcome.ok = true) :
    0 ≤ (outs.map SendOutcome.result).sum := by
  induction outs with
  | nil => exact Int.le_refl 0
  | cons o outs ih =>
    rw [List.all_cons, Bool.and_eq_true] at h
    have ho : 0 ≤ o.result := by
      cases o with
      | sends rc => exact of_decide_eq_true h.1
      | _ => exact Int.le_refl 0
    have hrest := ih h.2
    rw [List.map_cons, List.sum_cons]
    omega

theorem Calm.thisState (h : s.Calm) {k : Casting} {c : SendCall} (hpc : s.receiver = .sending k c) :
    c.thisState ≠ .error ∧ k.cast.pkt.bytes.length ≤ maxSize := by
  have hr := (h.failInv (c.thisSocket + 1)).receiver
  rw [hpc] at hr
  exact ⟨hr.2.2 (by omega), hr.1.small⟩

theorem Calm.contained (h : s.Calm) {a : Act} (hq : a.quiet = true) (hd : Directed s a) (f : Int) : Contained f s a := by
  refine ⟨?_, hd, ?_⟩
  · unfold OnlyFails onlyFails
    cases a with
    | listener a =>
      cases a with
      | acceptPre o => exact hq
      | acceptPost o => cases o <;> first | rfl | exact absurd hq (by decide)
      | _ => rfl
    | receiver a =>
      cases a with
      | part2 rc bs =>
        have hrc : 0 ≤ rc := of_decide_eq_true hq
        simp only
        split
        · exact decide_eq_true (.inl hrc)
        · rfl
      | send outs =>
        simp only
        split
        · exact decide_eq_true ⟨isSet_of_ok hq, .inl hq⟩
        · rfl
      | _ => rfl
  · unfold Sys.contained
    cases a with
    | listener a => rfl
    | receiver a =>
      cases a with
      | part2 rc bs =>
        have hrc : 0 ≤ rc := of_decide_eq_true hq
        simp only
        split
        · exact decide_eq_true (.inl hrc)
        · rfl
      | sendPre =>
        simp only
        split
        · exact decide_eq_true (.inr fun hc => h.clientState hc.2)
        · rfl
      | send outs =>
        simp only
        split
        · next k c hpc =>
          refine decide_eq_true fun hbad => ?_
          have hsum := result_nonneg hq
          rcases hbad with herr | hneg
          · exact absurd herr (h.thisState hpc).1
          · omega
        · rfl
      | _ => rfl

theorem Calm.step (h : s.Calm) {a : Act} (hq : a.quiet = true) (hd : Directed s a) (hs : s.step a = some t) : t.Calm := by
  refine ⟨fun f => (h.failInv f).step (h.contained hq hd f) hs, ?_⟩
  have hcl := h.clientState
  cases a with
  | listener a =>
    cases a with
    | readCount =>
      obtain ⟨-, hs⟩ := Option.ite_none_right_eq_some.1 hs
      cases hs
      exact hcl
    | acceptPre o =>
      obtain ⟨n, -, -, rfl⟩ := acceptPre_cases hs
      exact clientState_acceptPre hcl o
    | acceptPost o =>
      obtain ⟨n, -, -, -, rfl⟩ := acceptPost_cases hs
      show (s.lp.acceptPost o).1.clientState ≠ .error
      cases o with
      | selectFails => cases hq
      | notSet => cases hq
      | timeout => exact hcl
      | accepts rc =>
        unfold Lisa.acceptPost Lisa.addClient
        simp only
        split_ifs
        · exact hcl
        · nofun
        · nofun
    | compareCount => obtain ⟨n, -, rfl⟩ := compareCount_cases hs; exact hcl
    | register =>
      obtain ⟨-, hs⟩ := Option.ite_none_right_eq_some.1 hs
      cases hs
      exact hcl
  | receiver a =>
    cases a with
    | readCount => obtain ⟨-, rfl⟩ := readCount_cases hs; exact hcl
    | part1Pre => obtain ⟨-, ⟨rc, -, rfl⟩ | ⟨fds, thisFd, -, rfl⟩⟩ := part1Pre_cases hs <;> exact hcl
    | part1Post ready =>
      obtain ⟨fds, thisFd, -, -, rfl⟩ := part1Post_cases hs
      show (s.lp.recvPart1Post thisFd ready).1.clientState ≠ .error
      unfold Lisa.recvPart1Post
      split
      · nofun
      · split
        · split <;> exact hcl
        · exact hcl
    | clientForFd => obtain ⟨clfd, locked, -, ⟨clnum, -, rfl⟩ | ⟨-, rfl⟩⟩ := clientForFd_cases hs <;> exact hcl
    | part2 rc bs =>
      obtain ⟨clfd, clnum, locked, -, hrc, rfl⟩ := part2_cases hs
      have hpos : 0 ≤ rc := of_decide_eq_true hq
      obtain ⟨-, -, hfd⟩ := hrc.resolve_left fun hneg => by omega
      show (s.lp.recvPart2 rc).1.clientState ≠ .error
      rw [Lisa.recvPart2, if_pos hfd]
      show (if rc < 0 then _ else _) ≠ LisaState.error
      rw [if_neg (Int.not_lt.2 hpos)]
      split <;> nofun
    | loop => obtain ⟨clfd, clnum, -, ⟨-, -, rfl⟩ | ⟨-, -, rfl⟩ | ⟨-, rfl⟩⟩ := loop_cases hs <;> exact hcl
    | castStart =>
      obtain ⟨clfd, clnum, -, rfl⟩ := castStart_cases hs
      rcases castSeek_cases s _ with ⟨j, -, he⟩ | ⟨-, he⟩ <;> rw [he] <;> exact hcl
    | sendPre => obtain ⟨k, -, ⟨-, rfl⟩ | ⟨c, -, rfl⟩⟩ := sendPre_cases hs <;> exact hcl
    | send outs =>
      obtain ⟨k, c, r, hpc, hbody, rfl⟩ := send_cases hs
      show (s.lp.sendPost r.thisState).clientState ≠ .error
      unfold Lisa.sendPost
      split
      · exact hcl
      · intro herr
        obtain ⟨hst, hsmall⟩ := h.thisState hpc
        have hsum := result_nonneg hq
        rcases Lisa.sendBody_error (Nat.lt_of_le_of_lt hsmall (by decide)) (isSet_of_ok hq) hbody herr with hbad | hneg
        · exact hst hbad
        · omega
    | castNext =>
      obtain ⟨k, -, rfl⟩ := castNext_cases hs
      rcases castSeek_cases s _ with ⟨j, -, he⟩ | ⟨-, he⟩ <;> rw [he] <;> exact hcl

theorem Calm.full (h : s.Calm) {c : Cast} (hc : c ∈ s.casts ∨ c ∈ s.receiver.cast) : ∀ x ∈ c.sends, x.2 = c.pkt.bytes := by
  intro x hx
  have hf := h.failInv (x.1 + 1)
  rcases hc with hc | hc
  · exact hf.full c hc x hx (by omega)
  · have hr := hf.receiver
    have hwhole : ∀ {k : Casting}, k.Whole (x.1 + 1) s.buffers → k.cast = c → x.2 = c.pkt.bytes := by
      rintro k hk rfl
      exact hk.full x hx (by omega)
    cases hpc : s.receiver with
    | target k => rw [hpc] at hr hc; exact hwhole hr (Option.some.inj hc)
    | sending k call => rw [hpc] at hr hc; exact hwhole hr.1 (Option.some.inj hc)
    | sent k => rw [hpc] at hr hc; exact hwhole hr (Option.some.inj hc)
    | _ => rw [hpc] at hc; cases hc

end Sys

theorem calm_initListener : (Sys.init initListener).Calm := ⟨failInv_initListener, nofun⟩

/-! ### The data of one client -/

/-- Of the stream `fs` the first `n` bytes were received, and the frames `sent` were cast. The client waits for
the next `recv`. -/
structure Rests (fs : List (List UInt8)) (n : Nat) (sent : List (List UInt8)) (c : ClientData) : Prop where
  sent : sent = completed fs n
  settled : Settled c (pending fs n) (leftover fs n)

/-- The receiver is at the client: `r` bytes of the frames `ps` are left, which have the length `ℓ` as far as
their length fields are there. -/
structure Works (fs : List (List UInt8)) (n : Nat) (sent : List (List UInt8)) (c : ClientData)
    (ps : List (List UInt8)) (r ℓ : Nat) : Prop where
  split : sent ++ ps = fs
  count : sent.flatten.length + r = n
  looping : Looping ℓ c ps r
  same : ∀ f ∈ headed 4 ps r, f.length = ℓ

/-- The next packet of the client is the frame `p`. -/
def InHand (fs : List (List UInt8)) (n : Nat) (sent : List (List UInt8)) (c : ClientData) (p : List UInt8) : Prop :=
  ∃ ps r, Works fs n sent c (p :: ps) r p.length ∧ c.bytesExpected = p.length ∧ p.length ≤ r

section
variable {fs sent ps : List (List UInt8)} {n r ℓ : Nat} {c : ClientData} {p bs : List UInt8}

theorem rests_register (c : ClientData) (fd : Int) (hframes : ∀ p ∈ fs, IsFrame p) : Rests fs 0 [] (c.register fd) := by
  have hlt : ∀ p ∈ fs.head?, 0 < p.length := fun p hp => by
    have := (hframes p (List.mem_of_mem_head? hp)).le_length
    omega
  obtain ⟨hcompleted, hpending, hleftover⟩ := of_arrived [] hlt
  refine ⟨hcompleted.symm, ?_⟩
  rw [show pending fs 0 = fs from hpending, show leftover fs 0 = 0 from hleftover]
  exact settled_register c fd hframes

theorem Rests.received (h : Rests fs n sent c) (hfit : bs.length ≤ c.bufferRemaining)
    (hbs : bs <+: (pending fs n).flatten.drop (leftover fs n))
    (hsame : ∀ f ∈ headed 4 (pending fs n) (leftover fs n + bs.length), ∀ g ∈ (pending fs n).head?, f.length = g.length) :
    ∃ ps r ℓ, Works fs (n + bs.length) sent (c.received bs.length bs) ps r ℓ := by
  have hsplit : sent ++ pending fs n = fs := h.sent ▸ completed_append_pending fs n
  have hcount : sent.flatten.length + (leftover fs n + bs.length) = n + bs.length := by
    have := length_flatten_completed fs n
    rw [h.sent]; omega
  have hset := h.settled
  obtain ⟨rest, hrest⟩ := hbs
  cases hps : pending fs n with
  | nil =>
    -- the stream is at its end, so nothing was received
    rw [hps] at hset hrest hsplit
    have hnil : bs = [] := by
      rw [List.flatten_nil, List.drop_nil] at hrest
      exact (List.append_eq_nil_iff.1 hrest).1
    have hzero : leftover fs n = 0 := by simpa using hset.le_flatten
    subst hnil
    rw [hzero] at hset hcount
    have hrec : c.bytesReceived = 0 := hset.bytesReceived
    refine ⟨[], 0, 20, hsplit, hcount, ⟨?_, Nat.zero_le _, Nat.zero_le _, rfl, Nat.le_refl _, by decide, nofun, ?_, nofun⟩, ?_⟩
    · show u32 (c.bytesReceived + 0 : Int) = 0
      rw [hrec]; rfl
    · exact .inl (hset.expected.resolve_right fun h4 => by omega)
    · nofun
  | cons p ps =>
    rw [hps] at hset hrest hsplit hsame
    exact ⟨p :: ps, _, p.length, hsplit, hcount, hset.looping hfit hrest, fun f hf => hsame f hf p rfl⟩

theorem Works.readExpected (h : Works fs n sent c ps r ℓ) (hc : c.loopCond = true) :
    Works fs n sent c.readExpected ps r ℓ := by
  have h4 : 4 ≤ r := h.looping.bytesReceived ▸ (ClientData.loopCond_iff.1 hc).1
  exact ⟨h.split, h.count, h.looping.of_readExpected h4, h.same⟩

theorem Works.inHand (h : Works fs n sent c ps r ℓ) (hc : c.loopCond = true) (hready : c.readExpected.pktReady = true) :
    ∃ p, InHand fs n sent c.readExpected p := by
  have h4 : 4 ≤ r := h.looping.bytesReceived ▸ (ClientData.loopCond_iff.1 hc).1
  have he := h.looping.readExpected h4
  have hle : ℓ ≤ r := by
    have := (ClientData.pktReady_iff.1 hready).2
    rwa [he, ClientData.readExpected_bytesReceived, h.looping.bytesReceived] at this
  have hworks := h.readExpected hc
  cases ps with
  | nil =>
    have hflat : r ≤ 0 := h.looping.le_flatten
    omega
  | cons p ps =>
    obtain rfl : p.length = ℓ := h.same p (mem_headed_cons h4)
    exact ⟨p, ps, r, hworks, he, hle⟩

theorem Works.rests (h : Works fs n sent c ps r ℓ) (hc : c.loopCond = false) : Rests fs n sent c.relocate := by
  have hlt : ∀ p ∈ ps.head?, r < p.length := by
    intro p hp
    obtain ⟨ps', rfl⟩ := List.head?_eq_some_iff.1 hp
    refine Nat.lt_of_not_le fun hle => ?_
    have h20 := (h.looping.frames p List.mem_cons_self).le_length
    have h4 : 4 ≤ r := by omega
    obtain rfl : p.length = ℓ := h.same p (mem_headed_cons h4)
    rw [h.looping.loopCond_of_le h4 hle] at hc
    cases hc
  obtain ⟨hcompleted, hpending, hleftover⟩ := of_arrived sent hlt
  rw [h.split, h.count] at hcompleted hpending hleftover
  have hl := h.looping
  rw [← hpending, ← hleftover] at hl
  refine ⟨hcompleted.symm, hl.settled fun h4 p hp => ?_⟩
  rw [hpending] at hp
  rw [hleftover] at h4
  obtain ⟨ps', rfl⟩ := List.head?_eq_some_iff.1 hp
  exact h.same p (mem_headed_cons h4)

theorem InHand.readExpected (h : InHand fs n sent c p) : c.readExpected = c := by
  obtain ⟨ps, r, hworks, he, -⟩ := h
  refine if_neg fun hc => ?_
  have := hworks.looping.le_len
  omega

theorem InHand.pkt (h : InHand fs n sent c p) : c.pkt.bytes = p := by
  have hself := h.readExpected
  obtain ⟨ps, r, hworks, -, hle⟩ := h
  have hpkt := hworks.looping.pkt hle
  rw [hself] at hpkt
  rw [hpkt]

theorem InHand.consume (h : InHand fs n sent c p) : ∃ ps r ℓ, Works fs n (sent ++ [p]) c.consume ps r ℓ := by
  have hself := h.readExpected
  obtain ⟨ps, r, hworks, -, hle⟩ := h
  have hl := hworks.looping.consume hle
  rw [hself] at hl
  have h4 : 4 ≤ r := by have := hworks.looping.le_len; omega
  refine ⟨ps, r - p.length, p.length, ?_, ?_, hl, fun f hf => hworks.same f (mem_headed_tail h4 hle hf)⟩
  · rw [List.append_assoc]; exact hworks.split
  · have hcount := hworks.count
    rw [List.flatten_append, List.length_append, List.flatten_singleton]
    omega

theorem InHand.count_le (h : InHand fs n sent c p) : (sent ++ [p]).flatten.length ≤ n := by
  obtain ⟨ps, r, hworks, -, hle⟩ := h
  have hcount := hworks.count
  rw [List.flatten_append, List.flatten_singleton, List.length_append]
  omega

theorem InHand.arrived (h : InHand fs n sent c p) : sent.flatten.length ≤ n := by
  have hcount := h.count_le
  rw [List.flatten_append, List.length_append] at hcount
  omega

theorem InHand.next (h : InHand fs n sent c p) : sent ++ [p] <+: fs := by
  obtain ⟨ps, r, hworks, -⟩ := h
  exact ⟨ps, by rw [List.append_assoc]; exact hworks.split⟩

end

/-! ### The runs -/

/-- The entry of the client that the receiver is at after the `recv` -/
def ReceiverPc.working : ReceiverPc → Option Nat
  | .loop _ clnum => some clnum
  | .casting _ clnum => some clnum
  | .target k => some k.clnum
  | .sending k _ => some k.clnum
  | .sent k => some k.clnum
  | _ => none

def ReceiverPc.Holds (fs : Int → List (List UInt8)) (got : Int → Nat) (sent : Int → List (List UInt8)) (b : Buffers) :
    ReceiverPc → Prop
  | .loop clfd clnum => ∃ ps r ℓ, Works (fs clfd) (got clfd) (sent clfd) (b.client clnum) ps r ℓ
  | .casting clfd clnum => ∃ p, InHand (fs clfd) (got clfd) (sent clfd) (b.client clnum) p
  | .target k => InHand (fs k.cast.sender) (got k.cast.sender) (sent k.cast.sender) (b.client k.clnum) k.cast.pkt.bytes
  | .sending k _ =>
    InHand (fs k.cast.sender) (got k.cast.sender) (sent k.cast.sender) (b.client k.clnum) k.cast.pkt.bytes
  | .sent k => InHand (fs k.cast.sender) (got k.cast.sender) (sent k.cast.sender) (b.client k.clnum) k.cast.pkt.bytes
  | _ => True

/-- What the socket `fd` took in the calls of `lisa_cast` that returned, one entry for each `lisa_send` -/
def Sys.delivered (s : Sys) (fd : Int) : List (List UInt8) :=
  ((s.casts.flatMap Cast.sends).filter (·.1 = fd)).map Prod.snd

namespace Metered

def init (lp : Lisa) : Metered := ⟨.init lp, fun _ => 0⟩

def gotAfter (b : Metered) : Act → Int → Nat
  | .receiver (.part2 _ bs) =>
    match b.sys.receiver with
    | .found clfd _ _ => Function.update b.got clfd (b.got clfd + bs.length)
    | _ => b.got
  | _ => b.got

def step (b : Metered) (a : Act) : Option Metered := (b.sys.step a).map fun sys => { sys, got := b.gotAfter a }

/-- A `recv` returns the next bytes of the client's stream, and the frames whose length field is there then are as
long as the one at the front of the buffer. -/
def feeds (F : Int → List Frame) (b : Metered) : Act → Bool
  | .receiver (.part2 _ bs) =>
    match b.sys.receiver with
    | .found clfd _ _ =>
      let ps := pending (stream F clfd) (b.got clfd)
      let r := leftover (stream F clfd) (b.got clfd)
      bs <+: ps.flatten.drop r ∧ ∀ f ∈ headed 4 ps (r + bs.length), ∀ g ∈ ps.head?, f.length = g.length
    | _ => true
  | _ => true

/-- Nothing fails, nobody overwrites `l->client_fd` before it is read, a client is registered before it is picked,
and the frames that meet in a buffer have one length. -/
def Orderly (F : Int → List Frame) (b : Metered) (a : Act) : Prop :=
  Sys.Paired b.sys a ∧ Sys.Directed b.sys a ∧ a.quiet = true ∧ b.feeds F a = true

instance (F : Int → List Frame) (b : Metered) (a : Act) : Decidable (Orderly F b a) :=
  inferInstanceAs (Decidable (_ ∧ _ ∧ _ ∧ _))

/-- The bus that the threads are -/
structure Inv (F : Int → List Frame) (bus : Bus Int (List UInt8)) (b : Metered) : Prop where
  inStep : b.sys.InStep
  calm : b.sys.Calm
  members : bus.members.map Prod.fst = b.sys.lp.table
  joined : ∀ m ∈ bus.members, m.2 ≤ bus.log.length
  log : bus.log = b.sys.casts.map fun c => (c.sender, c.pkt.bytes)
  delivered : ∀ m ∈ bus.members, b.sys.delivered m.1 = bus.heard m.1 m.2
  fresh : ∀ fd, fd ∉ b.sys.buffers.table → b.got fd = 0 ∧ bus.published fd = []
  rests : ∀ i, i < b.sys.buffers.numClients → b.sys.receiver.working ≠ some i →
    Rests (stream F (b.sys.buffers.client i).clientFd) (b.got (b.sys.buffers.client i).clientFd)
      (bus.published (b.sys.buffers.client i).clientFd) (b.sys.buffers.client i)
  holds : b.sys.receiver.Holds (stream F) b.got bus.published b.sys.buffers

variable {F : Int → List Frame} {bus : Bus Int (List UInt8)} {b t : Metered} {sys : Sys}

theorem delivered_congr {s t : Sys} (h : t.casts = s.casts) (fd : Int) : t.delivered fd = s.delivered fd := by
  rw [Sys.delivered, Sys.delivered, h]

theorem Inv.of_same (h : b.Inv F bus) (hi : sys.InStep) (hc : sys.Calm) (htable : sys.lp.table = b.sys.lp.table)
    (hcasts : sys.casts = b.sys.casts) (hbuf : sys.buffers = b.sys.buffers)
    (hwork : sys.receiver.working = b.sys.receiver.working)
    (hholds : sys.receiver.Holds (stream F) b.got bus.published b.sys.buffers) : (⟨sys, b.got⟩ : Metered).Inv F bus := by
  refine ⟨hi, hc, h.members.trans htable.symm, h.joined, ?_, ?_, ?_, ?_, ?_⟩
  · rw [hcasts]; exact h.log
  · exact fun m hm => (delivered_congr hcasts _).trans (h.delivered m hm)
  · intro fd hfd
    rw [hbuf] at hfd
    exact h.fresh fd hfd
  · simp only [hbuf, hwork]
    exact h.rests
  · simp only [hbuf]
    exact hholds

theorem holds_of_working {r : ReceiverPc} (h : r.working = none) (fs : Int → List (List UInt8)) (got : Int → Nat)
    (sent : Int → List (List UInt8)) (b : Buffers) : r.Holds fs got sent b := by
  cases r with
  | loop => cases h
  | casting => cases h
  | target => cases h
  | sending => cases h
  | sent => cases h
  | _ => trivial

theorem client_inj (h : sys.InStep) {i j : Nat} (hi : i < sys.buffers.numClients) (hj : j < sys.buffers.numClients)
    (he : (sys.buffers.client i).clientFd = (sys.buffers.client j).clientFd) : i = j := by
  have hnodup : sys.buffers.table.Nodup := h.table ▸ h.nodup.sublist (List.take_sublist ..)
  exact List.inj_on_of_nodup_map hnodup (List.mem_range.2 hi) (List.mem_range.2 hj) he

theorem mem_table {bs : Buffers} {i : Nat} (hi : i < bs.numClients) : (bs.client i).clientFd ∈ bs.table :=
  List.mem_map_of_mem (List.mem_range.2 hi)

/-! ### The listener -/

theorem delivered_eq_nil (hc : sys.CastInv [] 0) {fd : Int} (hfd : fd ∉ sys.lp.table) : sys.delivered fd = [] := by
  unfold Sys.delivered
  rw [List.map_eq_nil_iff, List.filter_eq_nil_iff]
  intro x hx heq
  obtain ⟨c, hcast, hx⟩ := List.mem_flatMap.1 hx
  obtain ⟨tbl, -, -, htbl, hsends⟩ := hc.casts c hcast
  have hmem : x.1 ∈ tbl.filter (· ≠ c.sender) := hsends ▸ List.mem_map_of_mem hx
  have hmem : x.1 ∈ sys.lp.table := htbl.subset (List.mem_filter.1 hmem).1
  exact hfd (of_decide_eq_true heq ▸ hmem)

theorem Inv.join (h : b.Inv F bus) (hi : sys.InStep) (hc : sys.Calm) {fd : Int} (hfd : fd ∉ b.sys.lp.table)
    (htable : sys.lp.table = b.sys.lp.table ++ [fd]) (hcasts : sys.casts = b.sys.casts)
    (hbuf : sys.buffers = b.sys.buffers) (hrec : sys.receiver = b.sys.receiver) :
    ∃ bus', bus.step (.join fd) = some bus' ∧ (⟨sys, b.got⟩ : Metered).Inv F bus' := by
  have hnot : fd ∉ bus.members.map Prod.fst := h.members ▸ hfd
  refine ⟨_, if_neg hnot, hi, hc, ?_, ?_, ?_, ?_, ?_, ?_, ?_⟩
  · rw [List.map_append, h.members, htable]; rfl
  · refine List.forall_mem_append.2 ⟨h.joined, fun m hm => ?_⟩
    rw [List.mem_singleton.1 hm]
  · rw [hcasts]; exact h.log
  · refine List.forall_mem_append.2 ⟨fun m hm => (delivered_congr hcasts _).trans (h.delivered m hm), fun m hm => ?_⟩
    rw [List.mem_singleton.1 hm, delivered_congr hcasts]
    exact (delivered_eq_nil (h.calm.failInv 0).casts hfd).trans (Bus.heard_length bus fd).symm
  · rw [hbuf]; exact h.fresh
  · simp only [hbuf, hrec]
    exact h.rests
  · simp only [hbuf, hrec]
    exact h.holds

theorem Inv.register (h : b.Inv F bus) (hi : sys.InStep) (hc : sys.Calm) {fd : Int}
    (hbuf : sys.buffers = b.sys.buffers.register fd) (htable : sys.lp.table = b.sys.lp.table)
    (hcasts : sys.casts = b.sys.casts) (hrec : sys.receiver = b.sys.receiver) (hidle : b.sys.receiver.working = none) :
    (⟨sys, b.got⟩ : Metered).Inv F bus := by
  have hbtable : sys.buffers.table = b.sys.buffers.table ++ [fd] := hbuf ▸ Buffers.table_register ..
  have hnew : fd ∉ b.sys.buffers.table := by
    have hnodup : sys.buffers.table.Nodup := hi.table ▸ hi.nodup.sublist (List.take_sublist ..)
    rw [hbtable] at hnodup
    exact fun hmem => (List.nodup_append.1 hnodup).2.2 fd hmem fd (List.mem_singleton_self fd) rfl
  obtain ⟨hgot, hpub⟩ := h.fresh fd hnew
  refine ⟨hi, hc, h.members.trans htable.symm, h.joined, ?_, ?_, ?_, ?_, ?_⟩
  · rw [hcasts]; exact h.log
  · exact fun m hm => (delivered_congr hcasts _).trans (h.delivered m hm)
  · intro fd' hfd'
    rw [hbtable, List.mem_append, not_or] at hfd'
    exact h.fresh fd' hfd'.1
  · intro i hlt _
    simp only [hbuf] at hlt ⊢
    rcases Nat.lt_succ_iff_lt_or_eq.1 hlt with hold | rfl
    · rw [show (b.sys.buffers.register fd).client i = b.sys.buffers.client i from Mem.set_of_ne _ _ (Nat.ne_of_lt hold)]
      exact h.rests i hold (by rw [hidle]; nofun)
    · rw [show (b.sys.buffers.register fd).client b.sys.buffers.numClients = _ from Mem.set_self ..]
      show Rests (stream F fd) (b.got fd) (bus.published fd) _
      rw [hgot, hpub]
      refine rests_register _ _ fun p hp => ?_
      obtain ⟨f, -, rfl⟩ := List.mem_map.1 hp
      exact f.isFrame_encode
  · exact holds_of_working (hrec ▸ hidle) ..

theorem working_of_unlocked (h : sys.buffersLocked = false) : sys.receiver.working = none := by
  unfold Sys.buffersLocked at h
  unfold ReceiverPc.working
  split at h <;> simp_all

theorem Inv.listener {a : ListenerAct} (h : b.Inv F bus) (hi : sys.InStep) (hc : sys.Calm)
    (hs : b.sys.stepListener a = some sys) :
    ∃ bacts bus', Path Bus.step AnyStep bus bacts bus' ∧ (⟨sys, b.got⟩ : Metered).Inv F bus' := by
  have hf := Sys.listener_frame hs
  by_cases hreg : a = .register
  · subst hreg
    obtain ⟨⟨-, hl⟩, hs⟩ := Option.ite_none_right_eq_some.1 hs
    cases hs
    exact ⟨[], bus, .nil bus, h.register hi hc rfl rfl rfl rfl (working_of_unlocked hl)⟩
  · have hbuf : sys.buffers = b.sys.buffers := by
      cases a with
      | readCount =>
        obtain ⟨-, hs⟩ := Option.ite_none_right_eq_some.1 hs
        cases hs
        rfl
      | acceptPre o => obtain ⟨n, -, -, rfl⟩ := Sys.acceptPre_cases hs; rfl
      | acceptPost o => obtain ⟨n, -, -, -, rfl⟩ := Sys.acceptPost_cases hs; rfl
      | compareCount => obtain ⟨n, -, rfl⟩ := Sys.compareCount_cases hs; rfl
      | register => exact absurd rfl hreg
    rcases Sys.table_listener h.inStep.toServed hs with ⟨htable, -⟩ | ⟨fd, -, -, hfresh, htable, -⟩
    · exact ⟨[], bus, .nil bus, h.of_same hi hc htable hf.casts hbuf (congrArg _ hf.receiver) (hf.receiver ▸ h.holds)⟩
    · have hfd : fd ∉ b.sys.lp.table := fun hmem => hfresh (h.inStep.openFds fd hmem)
      obtain ⟨bus', hstep, hinv⟩ := h.join hi hc hfd htable hf.casts hbuf hf.receiver
      exact ⟨_, bus', .single trivial hstep, hinv⟩

/-! ### The receiver -/

theorem Inv.of_client (h : b.Inv F bus) (hi : sys.InStep) (hc : sys.Calm) (hf : Sys.ReceiverFrame b.sys sys)
    (hcasts : sys.casts = b.sys.casts) {clnum : Nat} {c : ClientData}
    (hbuf : sys.buffers = b.sys.buffers.setClient clnum c) {got : Int → Nat}
    (hgot : ∀ fd, fd ≠ (b.sys.buffers.client clnum).clientFd → got fd = b.got fd) (hlt : clnum < b.sys.buffers.numClients)
    (hwork : ∀ i, i ≠ clnum → b.sys.receiver.working ≠ some i)
    (hrests : sys.receiver.working ≠ some clnum → Rests (stream F c.clientFd) (got c.clientFd) (bus.published c.clientFd) c)
    (hholds : sys.receiver.Holds (stream F) got bus.published sys.buffers) : (⟨sys, got⟩ : Metered).Inv F bus := by
  refine ⟨hi, hc, h.members.trans hf.lp.table.symm, h.joined, ?_, ?_, ?_, ?_, hholds⟩
  · rw [hcasts]; exact h.log
  · exact fun m hm => (delivered_congr hcasts _).trans (h.delivered m hm)
  · intro fd hfd
    have hfd : fd ∉ b.sys.buffers.table := hf.table ▸ hfd
    have hne : fd ≠ (b.sys.buffers.client clnum).clientFd := fun he => hfd (he ▸ mem_table hlt)
    show got fd = 0 ∧ _
    rw [hgot fd hne]
    exact h.fresh fd hfd
  · intro i hi' hwi
    have hi' : i < b.sys.buffers.numClients := hf.numClients ▸ hi'
    simp only [hbuf]
    by_cases he : i = clnum
    · subst he
      rw [show (b.sys.buffers.setClient i c).client i = c from Mem.set_self ..]
      exact hrests hwi
    · rw [show (b.sys.buffers.setClient clnum c).client i = b.sys.buffers.client i from Mem.set_of_ne _ _ he]
      have hne : (b.sys.buffers.client i).clientFd ≠ (b.sys.buffers.client clnum).clientFd := fun hfd =>
        he (client_inj h.inStep hi' hlt hfd)
      rw [hgot _ hne]
      exact h.rests i hi' (hwork i he)

theorem Inv.beforeRecv (h : b.Inv F bus) (hi : sys.InStep) (hc : sys.Calm) (hf : Sys.ReceiverFrame b.sys sys)
    (hb : Sys.BeforeRecv b.sys sys) (hwork : b.sys.receiver.working = none) (hwork' : sys.receiver.working = none) :
    (⟨sys, b.got⟩ : Metered).Inv F bus :=
  h.of_same hi hc hf.lp.table hb.casts hb.buffers (hwork'.trans hwork.symm) (holds_of_working hwork' ..)

theorem Inv.part2 {rc : Int} {bs : List UInt8} (h : b.Inv F bus) (hG : Orderly F b (.receiver (.part2 rc bs)))
    (hi : sys.InStep) (hc : sys.Calm) (hs : b.sys.stepReceiver (.part2 rc bs) = some sys) :
    (⟨sys, b.gotAfter (.receiver (.part2 rc bs))⟩ : Metered).Inv F bus := by
  have hf := Sys.receiver_frame hs
  have htab := h.inStep.inTable
  obtain ⟨-, -, hq, hfeeds⟩ := hG
  obtain ⟨clfd, clnum, locked, hpc, hrc, rfl⟩ := Sys.part2_cases hs
  have hpos : 0 ≤ rc := of_decide_eq_true hq
  obtain ⟨rfl, hfit, hfd⟩ := hrc.resolve_left fun hneg => by omega
  have hres : (b.sys.lp.recvPart2 (bs.length : Int)).2 = bs.length := by rw [Lisa.recvPart2, if_pos hfd]
  rw [hpc] at htab
  obtain ⟨hlt, hclfd⟩ := htab
  have hfeeds : bs <+: (pending (stream F clfd) (b.got clfd)).flatten.drop (leftover (stream F clfd) (b.got clfd)) ∧
      ∀ f ∈ headed 4 (pending (stream F clfd) (b.got clfd)) (leftover (stream F clfd) (b.got clfd) + bs.length),
        ∀ g ∈ (pending (stream F clfd) (b.got clfd)).head?, f.length = g.length := by
    unfold feeds at hfeeds
    rw [hpc] at hfeeds
    exact of_decide_eq_true hfeeds
  have hgot : b.gotAfter (.receiver (.part2 bs.length bs)) = Function.update b.got clfd (b.got clfd + bs.length) := by
    unfold gotAfter
    rw [hpc]
  have hrests := h.rests clnum hlt (by rw [hpc]; nofun)
  rw [hclfd] at hrests
  rw [hgot]
  refine h.of_client hi hc hf rfl rfl (fun fd hne => ?_) hlt (fun i _ => by rw [hpc]; nofun) (fun hne => absurd rfl hne) ?_
  · rw [hclfd] at hne
    exact Function.update_of_ne hne ..
  · show ∃ ps r ℓ, Works (stream F clfd) (Function.update b.got clfd _ clfd) (bus.published clfd) _ ps r ℓ
    rw [Function.update_self, show (b.sys.buffers.setClient clnum _).client clnum = _ from Mem.set_self .., hres]
    exact hrests.received hfit hfeeds.1 hfeeds.2

theorem Inv.loop (h : b.Inv F bus) (hi : sys.InStep) (hc : sys.Calm) (hs : b.sys.stepReceiver .loop = some sys) :
    (⟨sys, b.got⟩ : Metered).Inv F bus := by
  have hf := Sys.receiver_frame hs
  have htab := h.inStep.inTable
  have hholds := h.holds
  obtain ⟨clfd, clnum, hpc, hcases⟩ := Sys.loop_cases hs
  rw [hpc] at htab hholds
  obtain ⟨hlt, hclfd⟩ := htab
  obtain ⟨ps, r, ℓ, hworks⟩ := hholds
  have hwork : ∀ i, i ≠ clnum → b.sys.receiver.working ≠ some i := fun i hne he => by
    rw [hpc] at he
    exact hne (Option.some.inj he).symm
  rcases hcases with ⟨hcond, hready, rfl⟩ | ⟨hcond, -, rfl⟩ | ⟨hcond, rfl⟩
  · refine h.of_client hi hc hf rfl rfl (fun _ _ => rfl) hlt hwork (fun hne => absurd rfl hne) ?_
    obtain ⟨p, hp⟩ := hworks.inHand hcond hready
    refine ⟨p, ?_⟩
    rw [show (b.sys.buffers.setClient clnum _).client clnum = _ from Mem.set_self ..]
    exact hp
  · refine h.of_client hi hc hf rfl rfl (fun _ _ => rfl) hlt hwork (fun hne => absurd (by rw [hpc]; rfl) hne) ?_
    simp only [hpc]
    refine ⟨ps, r, ℓ, ?_⟩
    rw [show (b.sys.buffers.setClient clnum _).client clnum = _ from Mem.set_self ..]
    exact hworks.readExpected hcond
  · refine h.of_client hi hc hf rfl rfl (fun _ _ => rfl) hlt hwork (fun _ => ?_) trivial
    show Rests (stream F (b.sys.buffers.client clnum).clientFd) (b.got (b.sys.buffers.client clnum).clientFd)
      (bus.published (b.sys.buffers.client clnum).clientFd) _
    rw [hclfd]
    exact hworks.rests hcond

theorem Inv.castSeek {k : Casting} (h : b.Inv F bus) (hi : (b.sys.castSeek k).InStep) (hc : (b.sys.castSeek k).Calm)
    (hlt : k.clnum < b.sys.buffers.numClients) (hsender : (b.sys.buffers.client k.clnum).clientFd = k.cast.sender)
    (hwork : b.sys.receiver.working = some k.clnum) (hk : k.Begun [] b.sys.lp.table k.i)
    (hfull : ∀ x ∈ k.cast.sends, x.2 = k.cast.pkt.bytes)
    (hp : InHand (stream F k.cast.sender) (b.got k.cast.sender) (bus.published k.cast.sender)
      (b.sys.buffers.client k.clnum) k.cast.pkt.bytes) :
    ∃ bacts bus', Path Bus.step AnyStep bus bacts bus' ∧ (⟨b.sys.castSeek k, b.got⟩ : Metered).Inv F bus' := by
  rcases Sys.castSeek_cases b.sys k with ⟨j, -, he⟩ | ⟨hj, he⟩
  · rw [he] at hi hc ⊢
    exact ⟨[], bus, .nil bus, h.of_same hi hc rfl rfl rfl hwork.symm hp⟩
  · have hfilter := Lisa.castFind_eq_none hk.bound hj
    rw [hk.last] at hfilter
    have hsends : k.cast.sends.map Prod.fst = b.sys.lp.table.filter (· ≠ k.cast.sender) := hk.sends.trans hfilter
    have hnodup : (k.cast.sends.map Prod.fst).Nodup := hsends ▸ h.inStep.nodup.filter _
    have hmem : k.cast.sender ∈ bus.members.map Prod.fst := by
      rw [h.members]
      have hin := mem_table hlt
      rw [hsender, h.inStep.table] at hin
      exact List.mem_of_mem_take hin
    rw [he] at hi hc ⊢
    refine ⟨[.publish k.cast.sender k.cast.pkt.bytes], _, .single trivial (if_pos hmem), hi, hc, h.members, ?_, ?_, ?_, ?_,
      ?_, ?_⟩
    · intro m hm
      rw [List.length_append]
      exact Nat.le_add_right_of_le (h.joined m hm)
    · rw [List.map_append, ← h.log]; rfl
    · -- the members are the clients of the table, and the call sent to all of them but the sender
      intro m hm
      have hmt : m.1 ∈ b.sys.lp.table := h.members ▸ List.mem_map_of_mem hm
      rw [Bus.heard_append (h.joined m hm), ← h.delivered m hm]
      show (((b.sys.casts ++ [k.cast]).flatMap Cast.sends).filter (·.1 = m.1)).map Prod.snd = _
      rw [List.flatMap_append, List.filter_append, List.map_append, List.flatMap_singleton,
        delivered_of_sends hfull hnodup, hsends]
      congr 1
      by_cases hself : k.cast.sender = m.1
      · rw [if_pos hself, if_neg]
        intro hin
        have hne : m.1 ≠ k.cast.sender := of_decide_eq_true (List.mem_filter.1 hin).2
        exact hne hself.symm
      · rw [if_neg hself, if_pos (List.mem_filter.2 ⟨hmt, decide_eq_true (Ne.symm hself)⟩)]
    · intro fd hfd
      have hfd : fd ∉ b.sys.buffers.table := by
        have hf := Sys.ReceiverFrame.castSeek b.sys k
        rw [he] at hf
        exact hf.table ▸ hfd
      have hne : k.cast.sender ≠ fd := fun heq => hfd (heq ▸ hsender ▸ mem_table hlt)
      obtain ⟨hgot, hpub⟩ := h.fresh fd hfd
      refine ⟨hgot, ?_⟩
      rw [Bus.published_append, hpub, if_neg hne]; rfl
    · intro i hi' hwi
      have hne : i ≠ k.clnum := fun heq => hwi (congrArg some heq.symm)
      have hfd : k.cast.sender ≠ (b.sys.buffers.client i).clientFd := fun heq =>
        hne (client_inj h.inStep hi' hlt (heq.symm.trans hsender.symm))
      simp only
      rw [show (b.sys.buffers.setClient k.clnum _).client i = b.sys.buffers.client i from Mem.set_of_ne _ _ hne,
        Bus.published_append, if_neg hfd, List.append_nil]
      refine h.rests i hi' fun heq => hne ?_
      rw [hwork] at heq
      exact (Option.some.inj heq).symm
    · show ∃ ps r ℓ, Works _ _ (Bus.published _ k.cast.sender) _ ps r ℓ
      rw [Bus.published_append, if_pos rfl,
        show (b.sys.buffers.setClient k.clnum _).client k.clnum = _ from Mem.set_self ..]
      exact hp.consume

theorem Inv.receiver {a : ReceiverAct} (h : b.Inv F bus) (hG : Orderly F b (.receiver a)) (hi : sys.InStep)
    (hc : sys.Calm) (hs : b.sys.stepReceiver a = some sys) :
    ∃ bacts bus', Path Bus.step AnyStep bus bacts bus' ∧ (⟨sys, b.gotAfter (.receiver a)⟩ : Metered).Inv F bus' := by
  have hf := Sys.receiver_frame hs
  have htab := h.inStep.inTable
  have hholds := h.holds
  have hcasts := (h.calm.failInv 0).casts.receiver
  cases a with
  | readCount =>
    obtain ⟨hpc, he⟩ := Sys.readCount_cases hs
    refine ⟨[], bus, .nil bus, h.beforeRecv hi hc hf (.readCount hs) (by rw [hpc]; rfl) ?_⟩
    rw [he]
    show (if _ then ReceiverPc.idle else .part1).working = none
    split <;> rfl
  | part1Pre =>
    obtain ⟨hpc, he⟩ := Sys.part1Pre_cases hs
    refine ⟨[], bus, .nil bus, h.beforeRecv hi hc hf (.part1Pre hs) (by rw [hpc]; rfl) ?_⟩
    rcases he with ⟨rc, -, rfl⟩ | ⟨fds, thisFd, -, rfl⟩
    · show (if rc < 0 then ReceiverPc.idle else .picked rc false).working = none
      split <;> rfl
    · rfl
  | part1Post ready =>
    obtain ⟨fds, thisFd, hpc, -, he⟩ := Sys.part1Post_cases hs
    refine ⟨[], bus, .nil bus, h.beforeRecv hi hc hf (.part1Post hs) (by rw [hpc]; rfl) ?_⟩
    rw [he]
    show (if _ < 0 then ReceiverPc.idle else .picked _ true).working = none
    split <;> rfl
  | clientForFd =>
    obtain ⟨clfd, locked, hpc, he⟩ := Sys.clientForFd_cases hs
    refine ⟨[], bus, .nil bus, h.beforeRecv hi hc hf (.clientForFd hs) (by rw [hpc]; rfl) ?_⟩
    rcases he with ⟨clnum, -, rfl⟩ | ⟨-, rfl⟩ <;> rfl
  | part2 rc bs => exact ⟨[], bus, .nil bus, h.part2 hG hi hc hs⟩
  | loop => exact ⟨[], bus, .nil bus, h.loop hi hc hs⟩
  | castStart =>
    obtain ⟨clfd, clnum, hpc, rfl⟩ := Sys.castStart_cases hs
    have hknown : b.sys.lp.clientFd = clfd := by
      have := hG.2.1.2
      simpa [Sys.directed, Sys.knowsSender, hpc] using this
    rw [hpc] at htab hholds
    obtain ⟨p, hp⟩ := hholds
    refine h.castSeek hi hc htab.1 htab.2 (by rw [hpc]; rfl) ⟨hknown, List.nil_prefix, List.prefix_rfl, Nat.zero_le _, rfl⟩
      (List.forall_mem_nil _) ?_
    rw [hp.pkt]
    exact hp
  | sendPre =>
    obtain ⟨k, hpc, ⟨-, rfl⟩ | ⟨c, -, rfl⟩⟩ := Sys.sendPre_cases hs
    · rw [hpc] at hholds
      exact ⟨[], bus, .nil bus, h.of_same hi hc rfl rfl rfl (by rw [hpc]; rfl) hholds⟩
    · rw [hpc] at hholds
      exact ⟨[], bus, .nil bus, h.of_same hi hc rfl rfl rfl (by rw [hpc]; rfl) hholds⟩
  | send outs =>
    obtain ⟨k, c, r, hpc, -, rfl⟩ := Sys.send_cases hs
    rw [hpc] at hholds
    exact ⟨[], bus, .nil bus, h.of_same hi hc hf.lp.table rfl rfl (by rw [hpc]; rfl) hholds⟩
  | castNext =>
    obtain ⟨k, hpc, rfl⟩ := Sys.castNext_cases hs
    have hfull := h.calm.full (.inr (show k.cast ∈ b.sys.receiver.cast by rw [hpc]; rfl))
    rw [hpc] at htab hholds hcasts
    exact h.castSeek hi hc htab.1 htab.2 (by rw [hpc]; rfl)
      ⟨hcasts.last, hcasts.grown, hcasts.registered, hcasts.bound, hcasts.sends⟩ hfull hholds

theorem Inv.step {a : Act} (h : b.Inv F bus) (hG : Orderly F b a) (hs : b.step a = some t) :
    ∃ bacts bus', Path Bus.step AnyStep bus bacts bus' ∧ t.Inv F bus' := by
  obtain ⟨sys, hsys, rfl⟩ := Option.map_eq_some_iff.1 hs
  obtain ⟨hpaired, hdirected, hq, -⟩ := id hG
  have hi := h.inStep.step hpaired hsys
  have hc := h.calm.step hq hdirected hsys
  cases a with
  | listener a => exact h.listener hi hc hsys
  | receiver a => exact h.receiver hG hi hc hsys

theorem inv_init (F : Int → List Frame) : (init initListener).Inv F .init := by
  refine ⟨inStep_initListener, calm_initListener, rfl, nofun, rfl, nofun, fun _ _ => ⟨rfl, rfl⟩, fun i hi => ?_, trivial⟩
  exact absurd hi (Nat.not_lt_zero i)

/-- What the threads show of the bus. The members are the clients of the lisa, the log has the packets that were cast,
and each socket took what its client hears. A client has published the first frames of its stream, and all that were
received as a whole when the receiver is idle. The packet that is being cast is the next frame of its stream; its
sender does not get it, and nobody gets it twice or in part. -/
structure Shows (F : Int → List Frame) (bus : Bus Int (List UInt8)) (b : Metered) : Prop where
  members : bus.members.map Prod.fst = b.sys.lp.table
  log : bus.log = b.sys.casts.map fun c => (c.sender, c.pkt.bytes)
  delivered : ∀ m ∈ bus.members, b.sys.delivered m.1 = bus.heard m.1 m.2
  published : ∀ fd, bus.published fd <+: stream F fd
  complete : b.sys.receiver = .idle → ∀ fd, bus.published fd = completed (stream F fd) (b.got fd)
  underWay : ∀ c ∈ b.sys.receiver.cast, bus.published c.sender ++ [c.pkt.bytes] <+: stream F c.sender ∧
    (∀ x ∈ c.sends, x.2 = c.pkt.bytes) ∧ (c.sends.map Prod.fst).Nodup ∧ c.sender ∉ c.sends.map Prod.fst

theorem Inv.inHand (h : b.Inv F bus) {c : Cast} (hc : c ∈ b.sys.receiver.cast) :
    c.sender ∈ b.sys.buffers.table ∧ ∃ clnum, InHand (stream F c.sender) (b.got c.sender) (bus.published c.sender)
      (b.sys.buffers.client clnum) c.pkt.bytes := by
  have htab := h.inStep.inTable
  have hholds := h.holds
  cases hpc : b.sys.receiver with
  | target k =>
    rw [hpc] at htab hholds hc
    cases hc
    exact ⟨htab.2 ▸ mem_table htab.1, k.clnum, hholds⟩
  | sending k call =>
    rw [hpc] at htab hholds hc
    cases hc
    exact ⟨htab.2 ▸ mem_table htab.1, k.clnum, hholds⟩
  | sent k =>
    rw [hpc] at htab hholds hc
    cases hc
    exact ⟨htab.2 ▸ mem_table htab.1, k.clnum, hholds⟩
  | _ => rw [hpc] at hc; cases hc

theorem Inv.client_cases (h : b.Inv F bus) (fd : Int) :
    b.got fd = 0 ∧ bus.published fd = [] ∨
      bus.published fd = completed (stream F fd) (b.got fd) ∨
      b.sys.receiver.working ≠ none ∧ bus.published fd <+: stream F fd ∧
        (bus.published fd).flatten.length ≤ b.got fd := by
  by_cases hfd : fd ∈ b.sys.buffers.table
  · obtain ⟨i, hi, rfl⟩ := List.mem_map.1 hfd
    have hi := List.mem_range.1 hi
    by_cases hw : b.sys.receiver.working = some i
    · refine .inr (.inr ⟨by rw [hw]; nofun, ?_⟩)
      have htab := h.inStep.inTable
      have hholds := h.holds
      cases hpc : b.sys.receiver with
      | loop clfd clnum =>
        rw [hpc] at hw htab hholds
        obtain ⟨ps, r, ℓ, hworks⟩ := hholds
        rw [← Option.some.inj hw, htab.2]
        exact ⟨⟨ps, hworks.split⟩, Nat.le.intro hworks.count⟩
      | casting clfd clnum =>
        rw [hpc] at hw htab hholds
        obtain ⟨p, hp⟩ := hholds
        rw [← Option.some.inj hw, htab.2]
        exact ⟨(List.prefix_append ..).trans hp.next, hp.arrived⟩
      | target k =>
        rw [hpc] at hw htab hholds
        rw [← Option.some.inj hw, htab.2]
        exact ⟨(List.prefix_append ..).trans hholds.next, hholds.arrived⟩
      | sending k c =>
        rw [hpc] at hw htab hholds
        rw [← Option.some.inj hw, htab.2]
        exact ⟨(List.prefix_append ..).trans hholds.next, hholds.arrived⟩
      | sent k =>
        rw [hpc] at hw htab hholds
        rw [← Option.some.inj hw, htab.2]
        exact ⟨(List.prefix_append ..).trans hholds.next, hholds.arrived⟩
      | _ => rw [hpc] at hw; cases hw
    · exact .inr (.inl (h.rests i hi hw).sent)
  · exact .inl (h.fresh fd hfd)

/-- What was published are whole frames of the stream, and they were received. -/
theorem Inv.arrived (h : b.Inv F bus) (fd : Int) :
    bus.published fd <+: stream F fd ∧ (bus.published fd).flatten.length ≤ b.got fd := by
  rcases h.client_cases fd with ⟨-, hpub⟩ | hpub | ⟨-, hpub, hle⟩
  · rw [hpub]; exact ⟨List.nil_prefix, Nat.zero_le _⟩
  · rw [hpub]; exact ⟨⟨_, completed_append_pending ..⟩, Nat.le.intro (length_flatten_completed ..)⟩
  · exact ⟨hpub, hle⟩

/-- Between two calls all frames that were received as a whole are published. -/
theorem Inv.complete (h : b.Inv F bus) (hidle : b.sys.receiver = .idle) (fd : Int) :
    bus.published fd = completed (stream F fd) (b.got fd) := by
  rcases h.client_cases fd with ⟨hgot, hpub⟩ | hpub | ⟨hwork, -⟩
  · rw [hgot, hpub]
    have hcount := length_flatten_completed (stream F fd) 0
    cases hcomp : completed (stream F fd) 0 with
    | nil => rfl
    | cons p ps =>
      -- a frame is not empty
      have hmem : p ∈ stream F fd := by
        rw [← completed_append_pending (stream F fd) 0, hcomp]
        exact List.mem_cons_self
      obtain ⟨f, -, rfl⟩ := List.mem_map.1 hmem
      have h20 := f.isFrame_encode.le_length
      rw [hcomp, List.flatten_cons, List.length_append] at hcount
      omega
  · exact hpub
  · exact absurd (by rw [hidle]; rfl) hwork

theorem Inv.shows (h : b.Inv F bus) : b.Shows F bus := by
  refine ⟨h.members, h.log, h.delivered, fun fd => (h.arrived fd).1, h.complete, fun c hc => ?_⟩
  obtain ⟨-, clnum, hp⟩ := h.inHand hc
  obtain ⟨hnodup, hnot⟩ := (h.calm.failInv 0).casts.underWay h.inStep.nodup hc
  exact ⟨hp.next, h.calm.full (.inr hc), hnodup, hnot⟩

end Metered

/-- However the two threads interleave, clients come and their streams are cut by `recv`, the bcaster is a bus, in the
runs in which nothing fails and the known defects are not met. -/
theorem bcaster_isBus (F : Int → List Frame) (acts : List Act) (b : Metered)
    (h : Path Metered.step (Metered.Orderly F) (.init initListener) acts b) :
    ∃ bacts bus, Path Bus.step AnyStep .init bacts bus ∧ b.Shows F bus := by
  have hinv := h.invariant (fun b => ∃ bacts bus, Path Bus.step AnyStep .init bacts bus ∧ b.Inv F bus)
    (fun b a t ⟨bacts, bus, hbus, hb⟩ hG hs => by
      obtain ⟨more, bus', hmore, ht⟩ := hb.step hG hs
      exact ⟨bacts ++ more, bus', hbus.append hmore, ht⟩)
    ⟨[], .init, .nil _, Metered.inv_init F⟩
  obtain ⟨bacts, bus, hbus, hb⟩ := hinv
  exact ⟨bacts, bus, hbus, hb.shows⟩

/-- A frame without payload, which two clients send -/
def emptyFrame (stamp : UInt8) : Frame := ⟨.replicate 16 stamp, [], rfl, by decide⟩

/-- A `recv` of `bs` from the client `fd` -/
def recvCall (fd : Int) (bs : List UInt8) : List Act :=
  [.receiver .readCount, .receiver .part1Pre, .receiver (.part1Post (some [fd])), .receiver .clientForFd,
    .receiver (.part2 bs.length bs), .receiver .loop]

/-- The first client's frame comes in two parts, and the third client is accepted while it is cast. -/
def threeOnABus : List Act :=
  acceptCall 4 ++ acceptCall 5 ++ recvCall 4 ((emptyFrame 1).encode.take 7) ++ [.receiver .loop] ++
    recvCall 4 ((emptyFrame 1).encode.drop 7) ++ [.receiver .castStart, .receiver .sendPre, .receiver (.send [.sends 20]),
      .receiver .castNext, .receiver .loop] ++ acceptCall 6 ++ recvCall 5 (emptyFrame 2).encode ++
    [.receiver .castStart, .receiver .sendPre, .receiver (.send [.sends 5, .sends 15]), .receiver .castNext,
      .receiver .sendPre, .receiver (.send [.sends 20]), .receiver .castNext, .receiver .loop]

theorem bcaster_isBus_three : ∃ b,
    Path Metered.step (Metered.Orderly fun fd => if fd = 4 then [emptyFrame 1] else if fd = 5 then [emptyFrame 2] else [])
      (.init initListener) threeOnABus b ∧
    [4, 5, 6].map b.sys.delivered = [[(emptyFrame 2).encode], [(emptyFrame 1).encode], [(emptyFrame 2).encode]] ∧
    ∃ bacts bus, Path Bus.step AnyStep .init bacts bus ∧
      b.Shows (fun fd => if fd = 4 then [emptyFrame 1] else if fd = 5 then [emptyFrame 2] else []) bus := by
  refine ⟨_, .of_run (by decide +kernel), by decide +kernel, ?_⟩
  exact bcaster_isBus _ threeOnABus _ (.of_run (by decide +kernel))

end Bcaster
end WlanxVms
