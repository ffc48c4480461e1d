import WlanxVms.Bcaster.Threads
import WlanxVms.Lisa.Send

/-!
# The two client tables of the bcaster

A client is registered twice: by `lisa_accept` in `lp->client_fds`, under `lp->lock`, and by the
listener in `buffers`, under `buffers.lock`. `Served` is what holds in every run of the two threads,
`InStep` what holds in the runs in which the second registration stores the descriptor of the first
and the receiver does not look up a descriptor between the two. `Selecting` adds what the last `select`
reported, which decides whether it does.
-/

namespace WlanxVms
namespace Bcaster

/-- `b` clients are registered in `buffers` and `m` in the lisa. -/
def ListenerPc.Counts (b m : Int) : ListenerPc → Prop
  | .idle => m = b
  | .counted n => n = b ∧ m = b
  | .selecting n => n = b ∧ m = b
  | .accepted n => n = b ∧ (m = b ∨ m = b + 1)
  | .registering => m = b + 1

/-- The packet in hand is not empty. -/
def ReceiverPc.PktNe (b : Buffers) : ReceiverPc → Prop
  | .casting _ clnum => (b.client clnum).bytesExpected ≠ 0
  | .target k => k.cast.pkt.bytes ≠ []
  | .sending k _ => k.cast.pkt.bytes ≠ []
  | .sent k => k.cast.pkt.bytes ≠ []
  | _ => True

/-- The descriptor that the receiver goes on with is in the table of the lisa. -/
def ReceiverPc.Selected (table : List Int) : ReceiverPc → Prop
  | .selecting _ thisFd => thisFd ∈ table
  | .picked clfd _ => clfd ∈ table
  | _ => True

/-- `select` was asked about descriptors of the table. -/
def ReceiverPc.Asked (table : List Int) : ReceiverPc → Prop
  | .selecting fds _ => ∀ fd ∈ fds, fd ∈ table
  | _ => True

/-- `CLIENT` is an entry of the table, and its descriptor is the one that the receiver picked. -/
def ReceiverPc.InTable (b : Buffers) : ReceiverPc → Prop
  | .found clfd clnum _ => clnum < b.numClients ∧ (b.client clnum).clientFd = clfd
  | .loop clfd clnum => clnum < b.numClients ∧ (b.client clnum).clientFd = clfd
  | .casting clfd clnum => clnum < b.numClients ∧ (b.client clnum).clientFd = clfd
  | .target k => k.clnum < b.numClients ∧ (b.client k.clnum).clientFd = k.cast.sender
  | .sending k _ => k.clnum < b.numClients ∧ (b.client k.clnum).clientFd = k.cast.sender
  | .sent k => k.clnum < b.numClients ∧ (b.client k.clnum).clientFd = k.cast.sender
  | .outside => False
  | _ => True

namespace Buffers
variable {b : Buffers} {fd : Int} {i : Nat}

theorem table_register (b : Buffers) (fd : Int) : (b.register fd).table = b.table ++ [fd] := by
  have hold : (List.range b.numClients).map (fun i => ((b.register fd).client i).clientFd) = b.table := by
    refine List.map_congr_left fun i hi => ?_
    have hlt := List.mem_range.1 hi
    exact congrArg ClientData.clientFd (Mem.set_of_ne _ _ (Nat.ne_of_lt hlt))
  have hnew : ((b.register fd).client b.numClients).clientFd = fd :=
    congrArg ClientData.clientFd (Mem.set_self ..)
  rw [table, show (b.register fd).numClients = b.numClients + 1 from rfl, List.range_succ, List.map_append, hold,
    List.map_singleton, hnew]

theorem clientForFd_eq_some (h : b.clientForFd fd = some i) : i < b.numClients ∧ (b.client i).clientFd = fd :=
  ⟨List.mem_range.1 (List.mem_of_find?_eq_some h), by simpa using List.find?_some h⟩

theorem clientForFd_ne_none (h : fd ∈ b.table) : b.clientForFd fd ≠ none := by
  obtain ⟨i, hi, hfd⟩ := List.mem_map.1 h
  intro hnone
  exact List.find?_eq_none.1 hnone i hi (decide_eq_true hfd)

end Buffers

namespace Sys
variable {s t : Sys}

/-! ### What holds in every run -/

structure Served (s : Sys) : Prop where
  counts : s.listener.Counts s.buffers.numClients s.lp.numClients
  type : s.lp.type ≠ .udp
  low : s.lp.state.code < LisaState.listening.code →
    s.lp.state = .error ∨ s.lp.state = .uninitialized ∧ s.lp.numClients = 0
  up : LisaState.listening.code ≤ s.lp.state.code ∨ (∃ n, s.listener = .selecting n) ∨ 0 < s.lp.numClients →
    s.lp.clsvr = .server ∧ s.lp.type = .tcp
  high : 0 < s.lp.numClients → s.lp.state = .error ∨ LisaState.connected.code ≤ s.lp.state.code
  busy : s.receiver ≠ .idle → 0 < s.lp.numClients
  pkt : s.receiver.PktNe s.buffers

theorem Served.numClients_nonneg (h : s.Served) : 0 ≤ s.lp.numClients := by
  have hc := h.counts
  unfold ListenerPc.Counts at hc
  split at hc <;> omega

theorem Served.buffers_le (h : s.Served) : (s.buffers.numClients : Int) ≤ s.lp.numClients := by
  have hc := h.counts
  unfold ListenerPc.Counts at hc
  split at hc <;> omega

theorem Served.server (h : s.Served) (hpos : 0 < s.lp.numClients) : s.lp.clsvr = .server ∧ s.lp.type = .tcp :=
  h.up (.inr (.inr hpos))

theorem Served.up_of (h : s.Served) {l : ListenerPc} (hl : ∀ n, l ≠ .selecting n) :
    LisaState.listening.code ≤ s.lp.state.code ∨ (∃ n, l = .selecting n) ∨ 0 < s.lp.numClients →
      s.lp.clsvr = .server ∧ s.lp.type = .tcp := by
  rintro (hcode | ⟨n, hsel⟩ | hpos)
  · exact h.up (.inl hcode)
  · exact absurd hsel (hl n)
  · exact h.server hpos

theorem Served.init {lp : Lisa} (htype : lp.type ≠ .udp) (hst : lp.state = .uninitialized) (hn : lp.numClients = 0) :
    (Sys.init lp).Served := by
  refine ⟨hn, htype, fun _ => .inr ⟨hst, hn⟩, ?_, ?_, fun h => absurd rfl h, trivial⟩
  · rintro (hcode | ⟨n, hsel⟩ | hpos)
    · rw [show (Sys.init lp).lp.state = .uninitialized from hst] at hcode
      exact absurd hcode (by decide)
    · cases hsel
    · rw [show (Sys.init lp).lp.numClients = 0 from hn] at hpos
      exact absurd hpos (by decide)
  · intro hpos
    rw [show (Sys.init lp).lp.numClients = 0 from hn] at hpos
    exact absurd hpos (by decide)

theorem Served.acceptPre {o : ListenOutcome} (h : s.Served) (hs : s.listenerAcceptPre o = some t) : t.Served := by
  obtain ⟨n, hn, -, rfl⟩ := acceptPre_cases hs
  have hc := h.counts
  have hsame := Lisa.SameClients.acceptPre s.lp o
  rw [hn] at hc
  obtain ⟨rfl, hm⟩ := hc
  have hcounts : (s.lp.acceptPre o).1.numClients = (s.buffers.numClients : Int) := hsame.numClients.trans hm
  have hbusy : s.receiver ≠ .idle → 0 < (s.lp.acceptPre o).1.numClients := fun hne => by
    rw [hsame.numClients]; exact h.busy hne
  rcases Lisa.acceptPre_state o h.type (fun hlt => (h.low hlt).imp_right And.left) with
    ⟨hl, hst⟩ | ⟨hl, hst⟩ | ⟨hst, htype, hl⟩
  · simp only [hl, Bool.false_eq_true, if_false]
    exact ⟨⟨rfl, .inl hm⟩, h.type, h.low, h.up_of nofun, h.high, h.busy, h.pkt⟩
  · simp only [hl, if_true]
    exact ⟨⟨rfl, hm⟩, h.type, h.low, fun _ => h.up (.inl hst), h.high, h.busy, h.pkt⟩
  · -- the lisa listens for the first time, so it has no clients yet
    have hzero : s.lp.numClients = 0 := by
      rcases h.low (by rw [hst]; decide) with herr | ⟨-, hzero⟩
      · rw [hst] at herr; cases herr
      · exact hzero
    have hnone : ¬0 < (s.lp.acceptPre o).1.numClients := by simp [hsame.numClients, hzero]
    rcases hl with ⟨herr, hfalse⟩ | ⟨hlis, htrue, hup⟩
    · simp only [hfalse, Bool.false_eq_true, if_false]
      refine ⟨⟨rfl, .inl hcounts⟩, htype, fun _ => .inl herr, ?_, fun hpos => absurd hpos hnone, hbusy, h.pkt⟩
      rintro (hcode | ⟨n, hsel⟩ | hpos)
      · rw [show ({ s with lp := (s.lp.acceptPre o).1 } : Sys).lp.state = .error from herr] at hcode
        exact absurd hcode (by decide)
      · cases hsel
      · exact absurd hpos hnone
    · simp only [htrue, if_true]
      refine ⟨⟨rfl, hcounts⟩, htype, fun hlt => ?_, fun _ => hup, fun hpos => absurd hpos hnone, hbusy, h.pkt⟩
      rw [show ({ s with lp := (s.lp.acceptPre o).1 } : Sys).lp.state = .listening from hlis] at hlt
      exact absurd hlt (by decide)

theorem Served.acceptPost {o : AcceptOutcome} (h : s.Served) (hs : s.listenerAcceptPost o = some t) : t.Served := by
  obtain ⟨n, hn, -, -, rfl⟩ := acceptPost_cases hs
  have hc := h.counts
  rw [hn] at hc
  obtain ⟨rfl, hm⟩ := hc
  obtain ⟨hsvr, htcp⟩ := h.up (.inr (.inl ⟨_, hn⟩))
  have hstate := Lisa.acceptPost_state s.lp o
  have hlow : (s.lp.acceptPost o).1.state.code < LisaState.listening.code → (s.lp.acceptPost o).1.state = .error := by
    intro hlt
    rcases hstate with hst | hst | hst
    · exact hst
    · rw [hst] at hlt; exact absurd hlt (by decide)
    · rw [hst] at hlt; exact absurd hlt (by decide)
  have hhigh : (s.lp.acceptPost o).1.state = .error ∨
      LisaState.connected.code ≤ (s.lp.acceptPost o).1.state.code := by
    rcases hstate with hst | hst | hst
    · exact .inl hst
    · rw [hst]; exact .inr (by decide)
    · rw [hst]; exact .inr (by decide)
  rcases Lisa.acceptPost_adds s.lp o with ⟨rc, rfl, -, hadd⟩ | ⟨hsame, -⟩
  · have hnum : (s.lp.acceptPost (.accepts rc)).1.numClients = s.lp.numClients + 1 := by rw [hadd]; rfl
    have hup : (s.lp.acceptPost (.accepts rc)).1.clsvr = .server ∧ (s.lp.acceptPost (.accepts rc)).1.type = .tcp := by
      rw [hadd]; exact ⟨hsvr, htcp⟩
    refine ⟨⟨rfl, .inr (hnum.trans (congrArg (· + 1) hm))⟩, ?_, fun hlt => .inl (hlow hlt), fun _ => hup, fun _ => hhigh,
      fun hne => ?_, h.pkt⟩
    · rw [show ({ s with lp := (s.lp.acceptPost (.accepts rc)).1 } : Sys).lp.type = .tcp from hup.2]; nofun
    · have hpos := h.busy hne
      show 0 < (s.lp.acceptPost (.accepts rc)).1.numClients
      omega
  · refine ⟨⟨rfl, .inl (hsame.numClients.trans hm)⟩, ?_, fun hlt => .inl (hlow hlt), fun _ => ?_, fun _ => hhigh,
      fun hne => ?_, h.pkt⟩
    · rw [show ({ s with lp := (s.lp.acceptPost o).1 } : Sys).lp.type = .tcp from hsame.type.trans htcp]; nofun
    · exact ⟨hsame.clsvr.trans hsvr, hsame.type.trans htcp⟩
    · show 0 < (s.lp.acceptPost o).1.numClients
      rw [hsame.numClients]; exact h.busy hne

theorem pktNe_of_inHand {r : ReceiverPc} (h : r.inHand = 0) (b : Buffers) : r.PktNe b := by
  unfold ReceiverPc.inHand at h
  unfold ReceiverPc.PktNe
  split at h <;> simp_all

theorem Served.listener {a : ListenerAct} (h : s.Served) (hs : s.stepListener a = some t) : t.Served := by
  have hc := h.counts
  cases a with
  | readCount =>
    obtain ⟨hn, hs⟩ := Option.ite_none_right_eq_some.1 hs
    cases hs
    rw [hn] at hc
    exact ⟨⟨hc, hc⟩, h.type, h.low, h.up_of nofun, h.high, h.busy, h.pkt⟩
  | acceptPre o => exact h.acceptPre hs
  | acceptPost o => exact h.acceptPost hs
  | compareCount =>
    obtain ⟨n, hn, rfl⟩ := compareCount_cases hs
    rw [hn] at hc
    obtain ⟨rfl, hm⟩ := hc
    by_cases hlt : (s.buffers.numClients : Int) < s.lp.numClients
    · simp only [if_pos hlt]
      exact ⟨hm.resolve_left (by omega), h.type, h.low, h.up_of nofun, h.high, h.busy, h.pkt⟩
    · simp only [if_neg hlt]
      exact ⟨hm.resolve_right (by omega), h.type, h.low, h.up_of nofun, h.high, h.busy, h.pkt⟩
  | register =>
    obtain ⟨⟨hn, hl⟩, hs⟩ := Option.ite_none_right_eq_some.1 hs
    cases hs
    rw [hn] at hc
    refine ⟨?_, h.type, h.low, h.up_of nofun, h.high, h.busy, pktNe_of_inHand (inHand_of_unlocked hl) _⟩
    show s.lp.numClients = ((s.buffers.numClients + 1 : Nat) : Int)
    rw [show s.lp.numClients = (s.buffers.numClients : Int) + 1 from hc]; rfl

theorem Served.of_frame (h : s.Served) (hf : ReceiverFrame s t)
    (hstate : t.lp.state = s.lp.state ∨ 0 < s.lp.numClients ∧ (t.lp.state = .error ∨ t.lp.state = .sentData))
    (hbusy : t.receiver ≠ .idle → 0 < s.lp.numClients) (hpkt : t.receiver.PktNe t.buffers) : t.Served := by
  have hup : 0 < s.lp.numClients → t.lp.clsvr = .server ∧ t.lp.type = .tcp := fun hpos =>
    ⟨hf.lp.clsvr.trans (h.server hpos).1, hf.lp.type.trans (h.server hpos).2⟩
  refine ⟨?_, ?_, ?_, ?_, ?_, ?_, hpkt⟩
  · rw [hf.listener, hf.numClients, hf.lp.numClients]; exact h.counts
  · rw [hf.lp.type]; exact h.type
  · intro hlt
    rcases hstate with hst | ⟨-, hst | hst⟩
    · rw [hst, hf.lp.numClients]; exact h.low (hst ▸ hlt)
    · exact .inl hst
    · rw [hst] at hlt; exact absurd hlt (by decide)
  · rw [hf.listener, hf.lp.numClients]
    rintro (hcode | hsel)
    · rcases hstate with hst | ⟨hpos, -⟩
      · rw [hf.lp.clsvr, hf.lp.type]; exact h.up (.inl (hst ▸ hcode))
      · exact hup hpos
    · rw [hf.lp.clsvr, hf.lp.type]; exact h.up (.inr hsel)
  · intro hpos
    rcases hstate with hst | ⟨-, hst | hst⟩
    · rw [hst]; exact h.high (hf.lp.numClients ▸ hpos)
    · exact .inl hst
    · rw [hst]; exact .inr (by decide)
  · intro hne
    rw [hf.lp.numClients]; exact hbusy hne

theorem pktNe_castSeek {k : Casting} (hk : k.cast.pkt.bytes ≠ []) :
    (s.castSeek k).receiver.PktNe (s.castSeek k).buffers := by
  rcases castSeek_cases s k with ⟨j, -, he⟩ | ⟨-, he⟩
  · rw [he]; exact hk
  · rw [he]; trivial

theorem state_castSeek (s : Sys) (k : Casting) : (s.castSeek k).lp.state = s.lp.state := by
  rcases castSeek_cases s k with ⟨j, -, he⟩ | ⟨-, he⟩ <;> rw [he]

theorem Served.beforeRecv (h : s.Served) (hf : ReceiverFrame s t) (hb : BeforeRecv s t) : t.Served := by
  refine h.of_frame hf (.inl hb.state) (fun hne => ?_) (pktNe_of_inHand hb.inHand' _)
  have hle := h.buffers_le
  rcases hb.busy hne with hbusy | hz
  · exact h.busy hbusy
  · omega

theorem Served.receiver {a : ReceiverAct} (h : s.Served) (hs : s.stepReceiver a = some t) : t.Served := by
  have hf := receiver_frame hs
  have hpkt := h.pkt
  -- every other step finds the receiver busy
  have hpos : s.receiver ≠ .idle → t.receiver ≠ .idle → 0 < s.lp.numClients := fun hne _ => h.busy hne
  cases a with
  | readCount => exact h.beforeRecv hf (.readCount hs)
  | part1Pre => exact h.beforeRecv hf (.part1Pre hs)
  | part1Post ready => exact h.beforeRecv hf (.part1Post hs)
  | clientForFd => exact h.beforeRecv hf (.clientForFd hs)
  | part2 rc bs =>
    obtain ⟨clfd, clnum, locked, hr, -, rfl⟩ := part2_cases hs
    exact h.of_frame hf (.inl (Lisa.state_recvPart2 ..)) (hpos (by simp [hr])) trivial
  | loop =>
    obtain ⟨clfd, clnum, hr, ⟨-, hready, rfl⟩ | ⟨-, -, rfl⟩ | ⟨-, rfl⟩⟩ := loop_cases hs
    · refine h.of_frame hf (.inl rfl) (hpos (by simp [hr])) ?_
      show (s.buffers.client.set clnum _ clnum).bytesExpected ≠ 0
      rw [Mem.set_self]
      exact (ClientData.pktReady_iff.1 hready).1
    · exact h.of_frame hf (.inl rfl) (hpos (by simp [hr])) (by rw [hr]; trivial)
    · exact h.of_frame hf (.inl rfl) (hpos (by simp [hr])) trivial
  | castStart =>
    obtain ⟨clfd, clnum, hr, rfl⟩ := castStart_cases hs
    rw [hr] at hpkt
    refine h.of_frame hf (.inl (state_castSeek ..)) (hpos (by simp [hr])) (pktNe_castSeek ?_)
    intro hnil
    have hlen := congrArg List.length hnil
    rw [show ((s.buffers.client clnum).pkt).bytes.length = _ from Mem.length_read ..] at hlen
    exact hpkt hlen
  | sendPre =>
    obtain ⟨k, hr, ⟨-, rfl⟩ | ⟨c, -, rfl⟩⟩ := sendPre_cases hs
    · rw [hr] at hpkt
      exact h.of_frame hf (.inl rfl) (hpos (by simp [hr])) hpkt
    · rw [hr] at hpkt
      exact h.of_frame hf (.inl rfl) (hpos (by simp [hr])) hpkt
  | send outs =>
    obtain ⟨k, c, r, hr, hbody, rfl⟩ := send_cases hs
    rw [hr] at hpkt
    refine h.of_frame hf ?_ (hpos (by simp [hr])) hpkt
    rcases Lisa.state_sendPost s.lp r.thisState with hst | hst
    · exact .inl hst
    · refine .inr ⟨h.busy (by simp [hr]), ?_⟩
      show (s.lp.sendPost r.thisState).state = _ ∨ (s.lp.sendPost r.thisState).state = _
      rw [hst]; exact Lisa.sendBody_thisState hpkt hbody
  | castNext =>
    obtain ⟨k, hr, rfl⟩ := castNext_cases hs
    rw [hr] at hpkt
    exact h.of_frame hf (.inl (state_castSeek ..)) (hpos (by simp [hr])) (pktNe_castSeek hpkt)

theorem Served.step {a : Act} (h : s.Served) (hs : s.step a = some t) : t.Served := by
  cases a with
  | listener a => exact h.listener hs
  | receiver a => exact h.receiver hs

/-! ### The runs in which `client_fds` has room -/

/-- An `accept` that adds a client returned a descriptor and finds a free entry. -/
def hasRoom (s : Sys) : Act → Bool
  | .listener (.acceptPost (.accepts rc)) => (s.lp.vsock ∧ rc ≤ 0) ∨ (0 ≤ rc ∧ s.lp.numClients < maxClients)
  | _ => true

/-- The clients of the lisa have different descriptors, which are open. -/
structure Distinct (s : Sys) : Prop extends Served s where
  nodup : s.lp.table.Nodup
  openFds : ∀ fd ∈ s.lp.table, fd ∈ s.openFds
  bound : s.lp.numClients ≤ maxClients

theorem mem_opened {o : AcceptOutcome} {fds : List Int} {fd : Int} (h : fd ∈ fds) : fd ∈ opened o fds := by
  unfold opened
  split
  · split
    · exact List.mem_cons_of_mem _ h
    · exact h
  · exact h

theorem table_listener {a : ListenerAct} (h : s.Served) (hs : s.stepListener a = some t) :
    (t.lp.table = s.lp.table ∧ t.lp.numClients = s.lp.numClients ∧ ∀ fd ∈ s.openFds, fd ∈ t.openFds) ∨
      ∃ rc, a = .acceptPost (.accepts rc) ∧ ¬(s.lp.vsock = true ∧ rc ≤ 0) ∧ rc ∉ s.openFds ∧
        t.lp.table = s.lp.table ++ [rc] ∧ t.lp.numClients = s.lp.numClients + 1 ∧
        t.openFds = opened (.accepts rc) s.openFds := by
  cases a with
  | readCount =>
    obtain ⟨-, hs⟩ := Option.ite_none_right_eq_some.1 hs
    cases hs
    exact .inl ⟨rfl, rfl, fun _ => id⟩
  | acceptPre o =>
    have hsame := Lisa.SameClients.acceptPre s.lp o
    obtain ⟨n, -, -, rfl⟩ := acceptPre_cases hs
    exact .inl ⟨hsame.table, hsame.numClients, fun _ => id⟩
  | acceptPost o =>
    obtain ⟨n, -, -, hfresh, rfl⟩ := acceptPost_cases hs
    rcases Lisa.acceptPost_adds s.lp o with ⟨rc, rfl, hadds, hadd⟩ | ⟨hsame, -⟩
    · refine .inr ⟨rc, rfl, hadds, by simpa [fresh] using hfresh, ?_, ?_, rfl⟩
      · show (s.lp.acceptPost (.accepts rc)).1.table = _
        rw [hadd]; exact Lisa.table_addClient h.numClients_nonneg rc
      · show (s.lp.acceptPost (.accepts rc)).1.numClients = _
        rw [hadd]; rfl
    · exact .inl ⟨hsame.table, hsame.numClients, fun fd hfd => mem_opened hfd⟩
  | compareCount =>
    obtain ⟨n, -, rfl⟩ := compareCount_cases hs
    exact .inl ⟨rfl, rfl, fun _ => id⟩
  | register =>
    obtain ⟨-, hs⟩ := Option.ite_none_right_eq_some.1 hs
    cases hs
    exact .inl ⟨rfl, rfl, fun _ => id⟩

theorem table_grows {a : ListenerAct} (h : s.Served) (hs : s.stepListener a = some t) :
    s.lp.table <+: t.lp.table := by
  rcases table_listener h hs with ⟨htable, -⟩ | ⟨rc, -, -, -, htable, -⟩
  · exact htable ▸ List.prefix_rfl
  · rw [htable]; exact List.prefix_append ..

theorem Distinct.listener {a : ListenerAct} (h : s.Distinct) (hG : s.hasRoom (.listener a) = true)
    (hs : s.stepListener a = some t) : t.Distinct := by
  have ht := h.toServed.listener hs
  rcases table_listener h.toServed hs with ⟨htable, hnum, hopen⟩ | ⟨rc, rfl, hadds, hnew, htable, hnum, hopen⟩
  · refine ⟨ht, ?_, ?_, ?_⟩
    · rw [htable]; exact h.nodup
    · rw [htable]
      intro fd hfd
      exact hopen fd (h.openFds fd hfd)
    · rw [hnum]; exact h.bound
  · obtain ⟨hrc, hroom⟩ : 0 ≤ rc ∧ s.lp.numClients < maxClients := by simpa [hasRoom, hadds] using hG
    refine ⟨ht, ?_, ?_, by omega⟩
    · rw [htable]
      refine List.nodup_append.2 ⟨h.nodup, List.pairwise_singleton .., fun fd hfd fd' hfd' he => ?_⟩
      rw [List.mem_singleton.1 hfd'] at he
      exact hnew (he ▸ h.openFds fd hfd)
    · intro fd hfd
      rw [htable] at hfd
      rw [hopen]
      rcases List.mem_append.1 hfd with hfd | hfd
      · exact mem_opened (h.openFds fd hfd)
      · rw [List.mem_singleton.1 hfd, opened, if_pos hrc]; exact List.mem_cons_self

theorem Distinct.receiver {a : ReceiverAct} (h : s.Distinct) (hs : s.stepReceiver a = some t) : t.Distinct := by
  have hf := receiver_frame hs
  refine ⟨h.toServed.receiver hs, ?_, ?_, ?_⟩
  · rw [hf.lp.table]; exact h.nodup
  · rw [hf.lp.table, hf.openFds]; exact h.openFds
  · rw [hf.lp.numClients]; exact h.bound

theorem Distinct.step {a : Act} (h : s.Distinct) (hG : s.hasRoom a = true) (hs : s.step a = some t) : t.Distinct := by
  cases a with
  | listener a => exact h.listener hG hs
  | receiver a => exact h.receiver hs

theorem Distinct.init {lp : Lisa} (htype : lp.type ≠ .udp) (hst : lp.state = .uninitialized) (hn : lp.numClients = 0) :
    (Sys.init lp).Distinct := by
  have htable : lp.table = [] := List.eq_nil_of_length_eq_zero (by rw [Lisa.length_table, hn]; rfl)
  refine ⟨.init htype hst hn, ?_, ?_, ?_⟩
  · rw [show (Sys.init lp).lp.table = [] from htable]; exact List.nodup_nil
  · rw [show (Sys.init lp).lp.table = [] from htable]; nofun
  · show lp.numClients ≤ _
    rw [hn]; decide

/-! ### The runs in which the two tables stay in step -/

/-- The listener registers the descriptor that `lisa_accept` added, and `client_for_fd` is not asked
for one still to be registered. -/
def paired (s : Sys) : Act → Bool
  | .listener .register => s.lp.clientFd = s.lp.clientFds s.buffers.numClients
  | .receiver .clientForFd =>
    match s.receiver with
    | .picked clfd _ => clfd ∉ s.lp.table.drop s.buffers.numClients
    | _ => true
  | _ => true

def Paired (s : Sys) (a : Act) : Prop := s.hasRoom a = true ∧ s.paired a = true

instance (s : Sys) (a : Act) : Decidable (Paired s a) := inferInstanceAs (Decidable (_ ∧ _))

structure InStep (s : Sys) : Prop extends Distinct s where
  table : s.buffers.table = s.lp.table.take s.buffers.numClients
  selected : s.receiver.Selected s.lp.table
  inTable : s.receiver.InTable s.buffers

theorem selected_mono {r : ReceiverPc} {xs ys : List Int} (h : r.Selected xs) (hxs : xs <+: ys) : r.Selected ys := by
  unfold ReceiverPc.Selected at h ⊢
  split at h
  · exact hxs.subset h
  · exact hxs.subset h
  · trivial

theorem inTable_of_unlocked (h : s.buffersLocked = false) (b : Buffers) : s.receiver.InTable b := by
  unfold buffersLocked at h
  unfold ReceiverPc.InTable
  split at h <;> simp_all

theorem inTable_congr {r : ReceiverPc} {b b' : Buffers} (hn : b'.numClients = b.numClients)
    (hfd : ∀ i, (b'.client i).clientFd = (b.client i).clientFd) (h : r.InTable b) : r.InTable b' := by
  unfold ReceiverPc.InTable at h ⊢
  split at h <;> simp_all

/-- `buffers` lists the first clients of the lisa, after any step of the listener but `register`. -/
theorem InStep.table_take {a : ListenerAct} (h : s.InStep) (hs : s.stepListener a = some t) :
    s.buffers.table = t.lp.table.take s.buffers.numClients := by
  have hle := h.buffers_le
  obtain ⟨ext, hext⟩ := table_grows h.toServed hs
  rw [← hext, List.take_append_of_le_length (by rw [Lisa.length_table]; omega)]
  exact h.table

theorem InStep.listener {a : ListenerAct} (h : s.InStep) (hG : Paired s (.listener a))
    (hs : s.stepListener a = some t) : t.InStep := by
  have ht := h.toDistinct.listener hG.1 hs
  have htable := h.table_take hs
  have hsel : t.receiver.Selected t.lp.table := by
    rw [(listener_frame hs).receiver]; exact selected_mono h.selected (table_grows h.toServed hs)
  cases a with
  | readCount =>
    obtain ⟨-, hs⟩ := Option.ite_none_right_eq_some.1 hs
    cases hs
    exact ⟨ht, htable, hsel, h.inTable⟩
  | acceptPre o => obtain ⟨n, -, -, rfl⟩ := acceptPre_cases hs; exact ⟨ht, htable, hsel, h.inTable⟩
  | acceptPost o => obtain ⟨n, -, -, -, rfl⟩ := acceptPost_cases hs; exact ⟨ht, htable, hsel, h.inTable⟩
  | compareCount => obtain ⟨n, -, rfl⟩ := compareCount_cases hs; exact ⟨ht, htable, hsel, h.inTable⟩
  | register =>
    obtain ⟨⟨hn, hl⟩, hs⟩ := Option.ite_none_right_eq_some.1 hs
    cases hs
    have hc := h.counts
    rw [hn] at hc
    have hlt : s.buffers.numClients < s.lp.table.length := by
      rw [Lisa.length_table, show s.lp.numClients = (s.buffers.numClients : Int) + 1 from hc]; omega
    have hfd : s.lp.clientFd = s.lp.table[s.buffers.numClients] := by
      rw [Lisa.getElem_table]; simpa [paired] using hG.2
    refine ⟨ht, ?_, hsel, inTable_of_unlocked hl _⟩
    show (s.buffers.register s.lp.clientFd).table = s.lp.table.take (s.buffers.numClients + 1)
    rw [Buffers.table_register, h.table, hfd, List.take_succ_eq_append_getElem hlt]

theorem InStep.of_frame (h : s.InStep) (ht : t.Distinct) (hf : ReceiverFrame s t)
    (hsel : t.receiver.Selected s.lp.table) (htab : t.receiver.InTable s.buffers) : t.InStep := by
  refine ⟨ht, ?_, ?_, inTable_congr hf.numClients hf.clientFd htab⟩
  · rw [hf.table, hf.lp.table, hf.numClients]; exact h.table
  · rw [hf.lp.table]; exact hsel

theorem inTable_castSeek (s : Sys) {k : Casting} {b : Buffers}
    (h : k.clnum < b.numClients ∧ (b.client k.clnum).clientFd = k.cast.sender) : (s.castSeek k).receiver.InTable b := by
  rcases castSeek_cases s k with ⟨j, -, he⟩ | ⟨-, he⟩ <;> rw [he] <;> exact h

theorem selected_castSeek (s : Sys) (k : Casting) (table : List Int) : (s.castSeek k).receiver.Selected table := by
  rcases castSeek_cases s k with ⟨j, -, he⟩ | ⟨-, he⟩ <;> rw [he] <;> trivial

theorem castSeek_ne_picked (s : Sys) (k : Casting) (clfd : Int) (locked : Bool) :
    (s.castSeek k).receiver ≠ .picked clfd locked := by
  rcases castSeek_cases s k with ⟨j, -, he⟩ | ⟨-, he⟩ <;> rw [he] <;> nofun

theorem buffers_grow {a : ListenerAct} (hs : s.stepListener a = some t) : s.buffers.table <+: t.buffers.table := by
  cases a with
  | readCount =>
    obtain ⟨-, hs⟩ := Option.ite_none_right_eq_some.1 hs
    cases hs
    exact List.prefix_rfl
  | acceptPre o => obtain ⟨n, -, -, rfl⟩ := acceptPre_cases hs; exact List.prefix_rfl
  | acceptPost o => obtain ⟨n, -, -, -, rfl⟩ := acceptPost_cases hs; exact List.prefix_rfl
  | compareCount => obtain ⟨n, -, rfl⟩ := compareCount_cases hs; exact List.prefix_rfl
  | register =>
    obtain ⟨-, hs⟩ := Option.ite_none_right_eq_some.1 hs
    cases hs
    show s.buffers.table <+: (s.buffers.register s.lp.clientFd).table
    rw [Buffers.table_register]
    exact List.prefix_append ..

theorem last_mem_table {l : Lisa} (hpos : 0 < l.numClients) : l.table.getLastD 0 ∈ l.table := by
  have hne : l.table ≠ [] := List.ne_nil_of_length_pos (by rw [Lisa.length_table]; omega)
  rw [List.getLastD_eq_getLast?, List.getLast?_eq_getLast_of_ne_nil hne]
  exact List.getLast_mem hne

theorem InStep.receiver {a : ReceiverAct} (h : s.InStep) (hG : Paired s (.receiver a))
    (hs : s.stepReceiver a = some t) : t.InStep := by
  have ht := h.toDistinct.receiver hs
  have hf := receiver_frame hs
  have hsel := h.selected
  have htab := h.inTable
  cases a with
  | readCount =>
    obtain ⟨-, rfl⟩ := readCount_cases hs
    refine h.of_frame ht hf ?_ ?_
    · show (if s.buffers.numClients = 0 then ReceiverPc.idle else .part1).Selected _
      split <;> trivial
    · show (if s.buffers.numClients = 0 then ReceiverPc.idle else .part1).InTable _
      split <;> trivial
  | part1Pre =>
    obtain ⟨hr, hpre⟩ := part1Pre_cases hs
    have hpos : 0 < s.lp.numClients := h.busy (by simp [hr])
    have hlast := last_mem_table hpos
    rcases Lisa.recvPart1Pre_cases (h.server hpos).1 (h.high hpos) with hret | hsels
    · rw [hret] at hpre
      obtain ⟨rc, hrc, rfl⟩ | ⟨fds, thisFd, hc, -⟩ := hpre
      · cases hrc
        exact h.of_frame ht hf trivial trivial
      · cases hc
    · rw [hsels] at hpre
      obtain ⟨rc, hrc, -⟩ | ⟨fds, thisFd, hc, rfl⟩ := hpre
      · cases hrc
      · cases hc
        exact h.of_frame ht hf hlast trivial
  | part1Post ready =>
    obtain ⟨fds, thisFd, hr, -, rfl⟩ := part1Post_cases hs
    rw [hr] at hsel
    refine h.of_frame ht hf ?_ ?_
    · show (if (s.lp.recvPart1Post thisFd ready).2 < 0 then ReceiverPc.idle else .picked _ true).Selected _
      by_cases hneg : (s.lp.recvPart1Post thisFd ready).2 < 0
      · rw [if_pos hneg]; trivial
      · rw [if_neg hneg]; exact (Lisa.recvPart1Post_mem ready hsel).resolve_left hneg
    · show (if (s.lp.recvPart1Post thisFd ready).2 < 0 then ReceiverPc.idle else .picked _ true).InTable _
      split <;> trivial
  | clientForFd =>
    obtain ⟨clfd, locked, hr, hfound⟩ := clientForFd_cases hs
    rw [hr] at hsel
    have hmem : clfd ∈ s.buffers.table := by
      have hnot : clfd ∉ s.lp.table.drop s.buffers.numClients := by simpa [paired, hr] using hG.2
      rw [h.table]
      refine (List.mem_append.1 ?_).resolve_right hnot
      rw [List.take_append_drop]; exact hsel
    rcases hfound with ⟨clnum, hc, rfl⟩ | ⟨hc, -⟩
    · exact h.of_frame ht hf trivial (Buffers.clientForFd_eq_some hc)
    · exact absurd hc (Buffers.clientForFd_ne_none hmem)
  | part2 rc bs =>
    obtain ⟨clfd, clnum, locked, hr, -, rfl⟩ := part2_cases hs
    rw [hr] at htab
    exact h.of_frame ht hf trivial htab
  | loop =>
    obtain ⟨clfd, clnum, hr, ⟨-, -, rfl⟩ | ⟨-, -, rfl⟩ | ⟨-, rfl⟩⟩ := loop_cases hs
    · rw [hr] at htab
      exact h.of_frame ht hf trivial htab
    · exact h.of_frame ht hf hsel htab
    · exact h.of_frame ht hf trivial trivial
  | castStart =>
    obtain ⟨clfd, clnum, hr, rfl⟩ := castStart_cases hs
    rw [hr] at htab
    exact h.of_frame ht hf (selected_castSeek ..) (inTable_castSeek s htab)
  | sendPre =>
    obtain ⟨k, hr, ⟨-, rfl⟩ | ⟨c, -, rfl⟩⟩ := sendPre_cases hs
    · rw [hr] at htab
      exact h.of_frame ht hf trivial htab
    · rw [hr] at htab
      exact h.of_frame ht hf trivial htab
  | send outs =>
    obtain ⟨k, c, r, hr, -, rfl⟩ := send_cases hs
    rw [hr] at htab
    exact h.of_frame ht hf trivial htab
  | castNext =>
    obtain ⟨k, hr, rfl⟩ := castNext_cases hs
    rw [hr] at htab
    exact h.of_frame ht hf (selected_castSeek ..) (inTable_castSeek s htab)

theorem InStep.step {a : Act} (h : s.InStep) (hG : Paired s a) (hs : s.step a = some t) : t.InStep := by
  cases a with
  | listener a => exact h.listener hG hs
  | receiver a => exact h.receiver hG hs

theorem InStep.init {lp : Lisa} (htype : lp.type ≠ .udp) (hst : lp.state = .uninitialized) (hn : lp.numClients = 0) :
    (Sys.init lp).InStep :=
  ⟨.init htype hst hn, rfl, trivial, trivial⟩

theorem InStep.path {acts : List Act} (hp : Path Sys.step Paired s acts t) (h : s.InStep) : t.InStep :=
  hp.invariant Sys.InStep (fun _ _ _ hi hG hs => hi.step hG hs) h

/-! ### What the listener leaves alone -/

theorem lp_listener {a : ListenerAct} (hs : s.stepListener a = some t) :
    t.lp = s.lp ∨ (∃ o, t.lp = (s.lp.acceptPre o).1) ∨ ∃ o, a = .acceptPost o ∧ t.lp = (s.lp.acceptPost o).1 := by
  cases a with
  | readCount =>
    obtain ⟨-, hs⟩ := Option.ite_none_right_eq_some.1 hs
    cases hs
    exact .inl rfl
  | acceptPre o => obtain ⟨n, -, -, rfl⟩ := acceptPre_cases hs; exact .inr (.inl ⟨o, rfl⟩)
  | acceptPost o => obtain ⟨n, -, -, -, rfl⟩ := acceptPost_cases hs; exact .inr (.inr ⟨o, rfl, rfl⟩)
  | compareCount => obtain ⟨n, -, rfl⟩ := compareCount_cases hs; exact .inl rfl
  | register =>
    obtain ⟨-, hs⟩ := Option.ite_none_right_eq_some.1 hs
    cases hs
    exact .inl rfl

theorem clientFd_listener {a : ListenerAct} (hs : s.stepListener a = some t) :
    t.lp.clientFd = s.lp.clientFd ∨ ∃ rc, a = .acceptPost (.accepts rc) ∧ t.lp.clientFd = rc := by
  rcases lp_listener hs with hlp | ⟨o, hlp⟩ | ⟨o, rfl, hlp⟩ <;> rw [hlp]
  · exact .inl rfl
  · exact .inl (Lisa.SameClients.acceptPre s.lp o).clientFd
  · rcases Lisa.acceptPost_adds s.lp o with ⟨rc, rfl, -, hadd⟩ | ⟨-, hsame⟩
    · exact .inr ⟨rc, rfl, congrArg Lisa.clientFd hadd⟩
    · exact .inl hsame

theorem vsock_listener {a : ListenerAct} (hs : s.stepListener a = some t) : t.lp.vsock = s.lp.vsock := by
  rcases lp_listener hs with hlp | ⟨o, hlp⟩ | ⟨o, -, hlp⟩ <;> rw [hlp]
  · exact (Lisa.SameClients.acceptPre s.lp o).vsock
  · rcases Lisa.acceptPost_adds s.lp o with ⟨rc, rfl, -, hadd⟩ | ⟨hsame, -⟩
    · rw [hadd]; rfl
    · exact hsame.vsock

theorem thisFd_listener {a : ListenerAct} (hs : s.stepListener a = some t) : t.lp.thisFd = s.lp.thisFd := by
  rcases lp_listener hs with hlp | ⟨o, hlp⟩ | ⟨o, -, hlp⟩ <;> rw [hlp]
  · exact Lisa.thisFd_acceptPre s.lp o
  · exact Lisa.thisFd_acceptPost s.lp o

/-! ### A server over vsock -/

structure OnVsock (s : Sys) : Prop extends Served s where
  vsock : s.lp.vsock = true
  pos : ∀ fd ∈ s.lp.table, 0 < fd
  asked : s.receiver.Asked s.lp.table

theorem asked_castSeek (s : Sys) (k : Casting) (table : List Int) : (s.castSeek k).receiver.Asked table := by
  rcases castSeek_cases s k with ⟨j, -, he⟩ | ⟨-, he⟩ <;> rw [he] <;> trivial

theorem OnVsock.asked_receiver {a : ReceiverAct} (h : s.OnVsock) (hs : s.stepReceiver a = some t) :
    t.receiver.Asked s.lp.table := by
  cases a with
  | readCount =>
    obtain ⟨-, rfl⟩ := readCount_cases hs
    show (if s.buffers.numClients = 0 then ReceiverPc.idle else .part1).Asked _
    split <;> trivial
  | part1Pre =>
    obtain ⟨hr, hpre⟩ := part1Pre_cases hs
    have hpos : 0 < s.lp.numClients := h.busy (by simp [hr])
    rcases Lisa.recvPart1Pre_cases (h.server hpos).1 (h.high hpos) with hret | hsels
    · rw [hret] at hpre
      obtain ⟨rc, hrc, rfl⟩ | ⟨fds, thisFd, hc, -⟩ := hpre
      · cases hrc
        trivial
      · cases hc
    · rw [hsels] at hpre
      obtain ⟨rc, hrc, -⟩ | ⟨fds, thisFd, hc, rfl⟩ := hpre
      · cases hrc
      · cases hc
        exact fun fd hfd => hfd
  | part1Post ready =>
    obtain ⟨fds, thisFd, -, -, rfl⟩ := part1Post_cases hs
    show (if (s.lp.recvPart1Post thisFd ready).2 < 0 then ReceiverPc.idle else .picked _ true).Asked _
    split <;> trivial
  | clientForFd => obtain ⟨clfd, locked, -, ⟨clnum, -, rfl⟩ | ⟨-, rfl⟩⟩ := clientForFd_cases hs <;> trivial
  | part2 rc bs => obtain ⟨clfd, clnum, locked, -, -, rfl⟩ := part2_cases hs; trivial
  | loop =>
    obtain ⟨clfd, clnum, hr, ⟨-, -, rfl⟩ | ⟨-, -, rfl⟩ | ⟨-, rfl⟩⟩ := loop_cases hs
    · trivial
    · rw [hr]; trivial
    · trivial
  | castStart => obtain ⟨clfd, clnum, -, rfl⟩ := castStart_cases hs; exact asked_castSeek ..
  | sendPre => obtain ⟨k, -, ⟨-, rfl⟩ | ⟨c, -, rfl⟩⟩ := sendPre_cases hs <;> trivial
  | send outs => obtain ⟨k, c, r, -, -, rfl⟩ := send_cases hs; trivial
  | castNext => obtain ⟨k, -, rfl⟩ := castNext_cases hs; exact asked_castSeek ..

theorem asked_mono {r : ReceiverPc} {xs ys : List Int} (h : r.Asked xs) (hxs : xs <+: ys) : r.Asked ys := by
  unfold ReceiverPc.Asked at h ⊢
  split at h
  · exact fun fd hfd => hxs.subset (h fd hfd)
  · trivial

theorem OnVsock.step {a : Act} (h : s.OnVsock) (hs : s.step a = some t) : t.OnVsock := by
  have ht := h.toServed.step hs
  cases a with
  | listener a =>
    refine ⟨ht, (vsock_listener hs).trans h.vsock, ?_, ?_⟩
    · rcases table_listener h.toServed hs with ⟨htable, -, -⟩ | ⟨rc, -, hadds, -, htable, -, -⟩
      · rw [htable]; exact h.pos
      · intro fd hfd
        rw [htable] at hfd
        rcases List.mem_append.1 hfd with hfd | hfd
        · exact h.pos fd hfd
        · rw [List.mem_singleton.1 hfd]
          by_contra hneg
          exact hadds ⟨h.vsock, Int.not_lt.1 hneg⟩
    · rw [(listener_frame hs).receiver]
      exact asked_mono h.asked (table_grows h.toServed hs)
  | receiver a =>
    have hf := receiver_frame hs
    refine ⟨ht, hf.lp.vsock.trans h.vsock, ?_, ?_⟩
    · rw [hf.lp.table]; exact h.pos
    · rw [hf.lp.table]; exact h.asked_receiver hs

theorem OnVsock.part1Post {ready : List Int} (h : s.OnVsock) (hs : s.part1Post (some ready) = some t) :
    ∃ fds thisFd fd, s.receiver = .selecting fds thisFd ∧ s.lp.table.find? (fun fd => fd ∈ ready) = some fd ∧
      s.lp.recvPart1Post thisFd (some ready) = ({ s.lp with clientFd := fd, thisFd := fd }, fd) := by
  obtain ⟨fds, thisFd, hr, hready, -⟩ := part1Post_cases hs
  have hasked := h.asked
  rw [hr] at hasked
  obtain ⟨hne, hsub⟩ := hready ready rfl
  obtain ⟨fd₀, hfd₀⟩ := List.exists_mem_of_ne_nil _ hne
  rcases hfind : s.lp.table.find? (fun fd => fd ∈ ready) with _ | fd
  · exact absurd (decide_eq_true hfd₀) (List.find?_eq_none.1 hfind fd₀ (hasked fd₀ (hsub fd₀ hfd₀)))
  · have hfd := h.pos fd (List.mem_of_find?_eq_some hfind)
    refine ⟨fds, thisFd, fd, hr, rfl, ?_⟩
    simp only [Lisa.recvPart1Post, hfind]
    rw [if_pos (by omega)]

end Sys

theorem inStep_initListener : (Sys.init initListener).InStep := .init nofun rfl rfl

theorem onVsock_initListener : (Sys.init initListener).OnVsock := ⟨.init nofun rfl rfl, rfl, nofun, trivial⟩

/-! ### When the receiver picks a client that is still to be registered -/

/-- The threads, and whether the last `select` reported only clients that `buffers` did not list. -/
structure Selecting where
  sys : Sys
  early : Bool

namespace Selecting
variable {w w' : Selecting} {t : Sys} {a : Act}

def init (lp : Lisa) : Selecting := ⟨Sys.init lp, false⟩

def noteEarly (w : Selecting) : Act → Bool
  | .receiver (.part1Post (some ready)) => ∀ fd ∈ ready, fd ∉ w.sys.buffers.table
  | _ => w.early

def step (w : Selecting) (a : Act) : Option Selecting :=
  (w.sys.step a).map fun t => { sys := t, early := w.noteEarly a }

/-- The listener registers the descriptor that `lisa_accept` added. When `select` reported only clients that
`buffers` did not list, all clients are registered by the time of `client_for_fd`. -/
def timely (w : Selecting) : Act → Bool
  | .listener .register => w.sys.lp.clientFd = w.sys.lp.clientFds w.sys.buffers.numClients
  | .receiver .clientForFd => w.early = true → (w.sys.buffers.numClients : Int) = w.sys.lp.numClients
  | _ => true

def Timely (w : Selecting) (a : Act) : Prop := w.sys.hasRoom a = true ∧ w.timely a = true

instance (w : Selecting) (a : Act) : Decidable (Timely w a) := inferInstanceAs (Decidable (_ ∧ _))

/-- The descriptor that the receiver picked is in `buffers`, or none that `select` reported was. -/
structure Inv (w : Selecting) : Prop extends w.sys.InStep, w.sys.OnVsock where
  picked : ∀ clfd locked, w.sys.receiver = .picked clfd locked → clfd ∈ w.sys.buffers.table ∨ w.early = true

theorem Inv.paired (h : w.Inv) (hG : Timely w a) : Sys.Paired w.sys a := by
  refine ⟨hG.1, ?_⟩
  have htimely := hG.2
  unfold Sys.paired
  split
  · exact htimely
  · split
    · next clfd locked hr =>
      refine decide_eq_true ?_
      rcases h.picked clfd locked hr with hmem | hearly
      · rw [h.table] at hmem
        exact List.disjoint_take_drop h.nodup (Nat.le_refl _) hmem
      · have hall : (w.sys.buffers.numClients : Int) = w.sys.lp.numClients := of_decide_eq_true htimely hearly
        rw [List.drop_of_length_le (by rw [Lisa.length_table]; omega)]
        exact List.not_mem_nil
    · rfl
  · rfl

/-- `client_fds` lists the clients that `buffers` lists first, so one of these is picked if any is ready. -/
theorem Inv.mem_of_find {ready : List Int} {fd : Int} (h : w.Inv)
    (hfind : w.sys.lp.table.find? (fun fd => fd ∈ ready) = some fd) (hready : ∃ g ∈ ready, g ∈ w.sys.buffers.table) :
    fd ∈ w.sys.buffers.table := by
  obtain ⟨g, hg, hmem⟩ := hready
  rw [h.table] at hmem ⊢
  rw [← List.take_append_drop w.sys.buffers.numClients w.sys.lp.table, List.find?_append] at hfind
  rcases hfirst : (w.sys.lp.table.take w.sys.buffers.numClients).find? (fun fd => fd ∈ ready) with _ | fd'
  · exact absurd (decide_eq_true hg) (List.find?_eq_none.1 hfirst g hmem)
  · rw [hfirst] at hfind
    cases hfind
    exact List.mem_of_find?_eq_some hfirst

theorem Inv.picked_receiver {a : ReceiverAct} (h : w.Inv) (hs : w.sys.stepReceiver a = some t) (clfd : Int)
    (locked : Bool) (hr : t.receiver = .picked clfd locked) :
    clfd ∈ t.buffers.table ∨ w.noteEarly (.receiver a) = true := by
  rw [(Sys.receiver_frame hs).table]
  cases a with
  | readCount =>
    obtain ⟨-, rfl⟩ := Sys.readCount_cases hs
    simp only at hr
    split at hr <;> cases hr
  | part1Pre =>
    obtain ⟨hpc, hpre⟩ := Sys.part1Pre_cases hs
    have hpos : 0 < w.sys.lp.numClients := h.busy (by simp [hpc])
    rcases Lisa.recvPart1Pre_cases (h.server hpos).1 (h.high hpos) with hret | hsels
    · rw [hret] at hpre
      obtain ⟨rc, hrc, rfl⟩ | ⟨fds, thisFd, hc, -⟩ := hpre
      · cases hrc; cases hr
      · cases hc
    · rw [hsels] at hpre
      obtain ⟨rc, hrc, -⟩ | ⟨fds, thisFd, hc, rfl⟩ := hpre
      · cases hrc
      · cases hr
  | part1Post ready =>
    cases ready with
    | none =>
      obtain ⟨fds, thisFd, -, -, rfl⟩ := Sys.part1Post_cases hs
      cases hr
    | some ready =>
      by_cases hready : ∃ g ∈ ready, g ∈ w.sys.buffers.table
      · obtain ⟨fds, thisFd, fd, hpc, hfind, hpost⟩ := h.toOnVsock.part1Post hs
        obtain ⟨fds', thisFd', hpc', -, rfl⟩ := Sys.part1Post_cases hs
        rw [hpc] at hpc'
        cases hpc'
        have hpos : 0 < fd := h.pos fd (List.mem_of_find?_eq_some hfind)
        simp only [hpost] at hr
        rw [if_neg (by omega)] at hr
        cases hr
        exact .inl (h.mem_of_find hfind hready)
      · right
        simpa [noteEarly] using hready
  | clientForFd => obtain ⟨fd, locked', -, ⟨clnum, -, rfl⟩ | ⟨-, rfl⟩⟩ := Sys.clientForFd_cases hs <;> cases hr
  | part2 rc bs => obtain ⟨fd, clnum, locked', -, -, rfl⟩ := Sys.part2_cases hs; cases hr
  | loop =>
    obtain ⟨fd, clnum, hpc, ⟨-, -, rfl⟩ | ⟨-, -, rfl⟩ | ⟨-, rfl⟩⟩ := Sys.loop_cases hs
    · cases hr
    · rw [show w.sys.receiver = .picked clfd locked from hr] at hpc
      cases hpc
    · cases hr
  | castStart =>
    obtain ⟨fd, clnum, -, rfl⟩ := Sys.castStart_cases hs
    exact absurd hr (Sys.castSeek_ne_picked _ _ clfd locked)
  | sendPre => obtain ⟨k, -, ⟨-, rfl⟩ | ⟨c, -, rfl⟩⟩ := Sys.sendPre_cases hs <;> cases hr
  | send outs => obtain ⟨k, c, r, -, -, rfl⟩ := Sys.send_cases hs; cases hr
  | castNext =>
    obtain ⟨k, -, rfl⟩ := Sys.castNext_cases hs
    exact absurd hr (Sys.castSeek_ne_picked _ _ clfd locked)

theorem Inv.step (h : w.Inv) (hG : Timely w a) (hs : w.step a = some w') : w'.Inv := by
  obtain ⟨t, ht, rfl⟩ := Option.map_eq_some_iff.1 hs
  have hstep := h.toInStep.step (h.paired hG) ht
  have hvsock := h.toOnVsock.step ht
  refine { hstep, hvsock with picked := ?_ }
  cases a with
  | listener a =>
    rw [(Sys.listener_frame ht).receiver]
    intro clfd locked hr
    exact (h.picked clfd locked hr).imp_left fun hmem => (Sys.buffers_grow ht).subset hmem
  | receiver a => exact h.picked_receiver ht

theorem Inv.init : (init initListener).Inv :=
  { inStep_initListener, onVsock_initListener with picked := nofun }

end Selecting

/-- The receiver works on a registered client in the runs in which a descriptor is registered as
`lisa_accept` added it, and is registered before `client_for_fd` if no registered one was ready. -/
theorem receiver_inTable (acts : List Act) (w : Selecting)
    (h : Path Selecting.step Selecting.Timely (Selecting.init initListener) acts w) :
    w.sys.receiver.InTable w.sys.buffers :=
  (h.invariant Selecting.Inv (fun _ _ _ hi hG hs => hi.step hG hs) .init).inTable

/-- The calls of the listener for one connection. -/
def acceptCall (fd : Int) : List Act :=
  [.listener .readCount, .listener (.acceptPre ⟨3, 0, 0, 0⟩), .listener (.acceptPost (.accepts fd)),
    .listener .compareCount, .listener .register]

/-- The second client sends at once and is picked, and is registered before it is looked up. -/
theorem receiver_inTable_one : ∃ w,
    Path Selecting.step Selecting.Timely (Selecting.init initListener) (acceptCall 4 ++ [.listener .readCount,
      .listener (.acceptPre ⟨3, 0, 0, 0⟩), .listener (.acceptPost (.accepts 5)), .receiver .readCount,
      .receiver .part1Pre, .receiver (.part1Post (some [5])), .listener .compareCount, .listener .register,
      .receiver .clientForFd]) w ∧
    w.early = true ∧ w.sys.buffers.numClients = 2 ∧ w.sys.receiver.InTable w.sys.buffers := by
  refine ⟨_, .of_run (by decide +kernel), by decide +kernel, by decide +kernel, ?_⟩
  exact receiver_inTable _ _ (.of_run (by decide +kernel))

/-- The second client sends at once: the receiver picks its descriptor, which is in `client_fds` but
not in `buffers`. -/
theorem not_receiver_inTable : ¬ ∀ (acts : List Act) (s : Sys),
    Path Sys.step AnyStep (Sys.init initListener) acts s → s.receiver.InTable s.buffers := by
  intro h
  have hbad := h (acceptCall 4 ++ [.listener .readCount, .listener (.acceptPre ⟨3, 0, 0, 0⟩),
    .listener (.acceptPost (.accepts 5)), .receiver .readCount, .receiver .part1Pre,
    .receiver (.part1Post (some [5])), .receiver .clientForFd]) _ (.of_run (by decide +kernel))
  exact hbad

/-! ### The tables between the calls, with closes -/

/-- The threads, and `lisa_close_client` called at any time. -/
inductive TableAct where
  | thread (a : Act)
  | closeClient

namespace Sys
variable {s t : Sys}

def stepTables (s : Sys) : TableAct → Option Sys
  | .thread a => s.step a
  | .closeClient => some s.closeClient

/-- `lisa_close_client` returns at its checks. -/
def PairedTables (s : Sys) : TableAct → Prop
  | .thread a => Paired s a
  | .closeClient => s.lp.state.code < 0 ∨ s.lp.clientState.code < LisaState.connected.code

instance (s : Sys) : (a : TableAct) → Decidable (PairedTables s a)
  | .thread a => inferInstanceAs (Decidable (Paired s a))
  | .closeClient => inferInstanceAs (Decidable (_ ∨ _))

structure TablesAgree (s : Sys) : Prop where
  lisaBound : s.lp.numClients ≤ maxClients
  buffersBound : s.buffers.numClients ≤ maxClients
  nodup : s.buffers.table.Nodup
  same : ∀ fd, fd ∈ s.buffers.table ↔ fd ∈ s.lp.table
  accepted : ∀ fd ∈ s.buffers.table, fd ∈ s.openFds

theorem closeClient_eq_self (h : s.lp.state.code < 0 ∨ s.lp.clientState.code < LisaState.connected.code) :
    s.closeClient = s := by
  have hlp : s.lp.lisaCloseClient = s.lp := by
    unfold Lisa.lisaCloseClient
    by_cases herr : s.lp.state.code < 0
    · rw [if_pos herr]
    · rw [if_neg herr, if_pos (h.resolve_left herr)]
  unfold closeClient
  rw [hlp, if_pos h]

theorem InStep.pathTables {acts : List TableAct} (hp : Path Sys.stepTables PairedTables s acts t) (h : s.InStep) :
    t.InStep := by
  refine hp.invariant Sys.InStep (fun s a t hi hG hs => ?_) h
  cases a with
  | thread a => exact hi.step hG hs
  | closeClient =>
    cases hs
    rw [closeClient_eq_self hG]; exact hi

theorem InStep.tablesAgree (h : s.InStep) (hidle : s.listener = .idle) : s.TablesAgree := by
  have hc := h.counts
  have hbound := h.bound
  rw [hidle] at hc
  have hn : s.lp.numClients = (s.buffers.numClients : Int) := hc
  have htable : s.buffers.table = s.lp.table := by
    rw [h.table, List.take_of_length_le (by rw [Lisa.length_table]; omega)]
  refine ⟨h.bound, by omega, ?_, fun fd => by rw [htable], ?_⟩
  · rw [htable]; exact h.nodup
  · rw [htable]; exact h.openFds

end Sys

/-- Between the calls of the two threads the tables are bounded and list the same clients, and a new
client starts with nothing received, as long as no more than `MAX_CLIENTS` connections are accepted,
each is registered as `lisa_accept` added it, and none is closed. -/
theorem tables_agree (lp : Lisa) (hlp : lp = initListener ∨ lp = lServer.lisaOpen) (acts : List TableAct) (s : Sys)
    (h : Path Sys.stepTables Sys.PairedTables (Sys.init lp) acts s) :
    (s.listener = .idle → s.receiver = .idle → s.TablesAgree) ∧
      ∀ t, s.stepListener .register = some t →
        (t.buffers.client s.buffers.numClients).bytesReceived = 0 ∧
          (t.buffers.client s.buffers.numClients).bytesExpected = 0 := by
  have hinit : (Sys.init lp).InStep := by
    rcases hlp with rfl | rfl
    · exact inStep_initListener
    · exact .init nofun rfl rfl
  constructor
  · intro hidle _
    exact (hinit.pathTables h).tablesAgree hidle
  · intro t ht
    obtain ⟨-, ht⟩ := Option.ite_none_right_eq_some.1 ht
    cases ht
    have hnew : (s.buffers.register s.lp.clientFd).client s.buffers.numClients = _ := Mem.set_self ..
    show ((s.buffers.register s.lp.clientFd).client s.buffers.numClients).bytesReceived = 0 ∧ _ = 0
    rw [hnew]
    constructor <;> rfl

/-- One connection, accepted by an inet server. -/
theorem tables_agree_one : ∃ s,
    Path Sys.stepTables Sys.PairedTables (Sys.init lServer.lisaOpen)
      (.closeClient :: (acceptCall 4).map .thread) s ∧
    s.lp.numClients = 1 ∧ s.TablesAgree := by
  refine ⟨_, .of_run (by decide +kernel), by decide +kernel, ?_⟩
  exact (tables_agree _ (.inr rfl) _ _ (.of_run (by decide +kernel))).1 (by decide +kernel) rfl

/-- Eleven connections, without a close. -/
theorem not_tables_agree : ¬ ∀ (lp : Lisa), lp = initListener ∨ lp = lServer.lisaOpen →
    ∀ (acts : List TableAct) (s : Sys), Path Sys.stepTables AnyStep (Sys.init lp) acts s →
    (s.listener = .idle → s.receiver = .idle → s.TablesAgree) ∧
      ∀ t, s.stepListener .register = some t →
        (t.buffers.client s.buffers.numClients).bytesReceived = 0 ∧
          (t.buffers.client s.buffers.numClients).bytesExpected = 0 := by
  intro h
  obtain ⟨hbad, -⟩ := h initListener (.inl rfl)
    (((List.range 11).flatMap fun i => acceptCall (4 + (i : Int))).map .thread) _ (.of_run (by decide +kernel))
  have hbound := (hbad (by decide +kernel) rfl).lisaBound
  revert hbound
  decide +kernel

end Bcaster
end WlanxVms
