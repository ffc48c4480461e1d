import WlanxVms.Bcaster.Cast

/-!
# The failure of one client

All clients share `l->state` and `l->client_state`. `lisa_send` stores its result in `l->state`
unless that is `LISA_ACCEPTED`, and then a `LISA_ERROR` that it stored in `l->client_state` keeps the
next `lisa_send` from sending. `Contained` excludes both, and a failed `recv` for a client with an
empty buffer, whose `-1` is added to `bytes_received`.
-/

namespace WlanxVms
namespace Bcaster

/-- Each `lisa_send`, to other clients than `f`, took the whole packet. -/
def Cast.Full (f : Int) (c : Cast) : Prop := ∀ p ∈ c.sends, p.1 ≠ f → p.2 = c.pkt.bytes

/-- A packet being cast: its client has received it, it is small, and it was sent in full. -/
structure Casting.Whole (f : Int) (b : Buffers) (k : Casting) : Prop where
  received : (b.client k.clnum).bytesExpected ≤ (b.client k.clnum).bytesReceived
  small : k.cast.pkt.bytes.length ≤ maxSize
  full : k.cast.Full f

def ReceiverPc.Whole (f : Int) (b : Buffers) : ReceiverPc → Prop
  | .casting _ clnum => (b.client clnum).bytesExpected ≤ (b.client clnum).bytesReceived
  | .target k => k.Whole f b
  | .sending k c => k.Whole f b ∧ c.thisType = .tcp ∧ (c.thisSocket ≠ f → c.thisState ≠ .error)
  | .sent k => k.Whole f b
  | _ => True

namespace Sys
variable {s t : Sys} {f : Int}

/-- Only the sends to the client `f` and the receives from it fail. -/
def onlyFails (f : Int) (s : Sys) : Act → Bool
  | .listener (.acceptPre o) => o.ok
  | .listener (.acceptPost .selectFails) => false
  | .receiver (.part2 rc _) =>
    match s.receiver with
    | .found clfd _ _ => 0 ≤ rc ∨ clfd = f
    | _ => true
  | .receiver (.send outs) =>
    match s.receiver with
    | .sending _ c => outs.all SendOutcome.isSet ∧ (outs.all SendOutcome.ok ∨ c.thisSocket = f)
    | _ => true
  | _ => true

/-- A `recv` fails only for a client with bytes in its buffer; a `lisa_send` to another client than `f`
does not begin in error; and one that begins or ends in error stores that in `l->client_state`. -/
def contained (f : Int) (s : Sys) : Act → Bool
  | .receiver (.part2 rc _) =>
    match s.receiver with
    | .found _ clnum _ => 0 ≤ rc ∨ 0 < (s.buffers.client clnum).bytesReceived
    | _ => true
  | .receiver .sendPre =>
    match s.receiver with
    | .target k => s.lp.clientFds k.i = f ∨ ¬(s.lp.state = .accepted ∧ s.lp.clientState = .error)
    | _ => true
  | .receiver (.send outs) =>
    match s.receiver with
    | .sending _ c =>
      (c.thisState = .error ∨ (outs.map SendOutcome.result).sum < 0) → s.lp.state = .accepted
    | _ => true
  | _ => true

def OnlyFails (f : Int) (s : Sys) (a : Act) : Prop := s.onlyFails f a = true

def Contained (f : Int) (s : Sys) (a : Act) : Prop :=
  OnlyFails f s a ∧ Directed s a ∧ s.contained f a = true

instance (f : Int) (s : Sys) (a : Act) : Decidable (OnlyFails f s a) := inferInstanceAs (Decidable (_ = true))

instance (f : Int) (s : Sys) (a : Act) : Decidable (Contained f s a) := inferInstanceAs (Decidable (_ ∧ _))

/-- The lisa works, and the packets reached all clients but the one that fails. -/
structure Unharmed (f : Int) (s : Sys) : Prop where
  state : s.lp.state ≠ .error
  accepts : ∀ o : ListenOutcome, o.ok = true → (s.lp.acceptPre o).2 = true
  receives : 0 < s.lp.numClients → s.lp.recvPart1Pre = .selects s.lp.table (s.lp.table.getLastD 0)
  casts : ∀ c ∈ s.casts, c.ReachesOthers ∧ c.Full f

structure FailInv (f : Int) (s : Sys) : Prop where
  distinct : s.Distinct
  casts : s.CastInv [] 0
  state : s.lp.state ≠ .error
  small : ∀ i, (s.buffers.client i).bytesReceived ≤ maxSize
  receiver : s.receiver.Whole f s.buffers
  full : ∀ c ∈ s.casts, c.Full f

theorem FailInv.unharmed (h : s.FailInv f) : s.Unharmed f := by
  refine ⟨h.state, ?_, ?_, ?_⟩
  · intro o ho
    rcases Lisa.acceptPre_state o h.distinct.type (fun hlt => (h.distinct.low hlt).imp_right And.left) with
      ⟨-, herr⟩ | ⟨hl, -⟩ | ⟨hst, -, ⟨herr, -⟩ | ⟨-, htrue, -⟩⟩
    · exact absurd herr h.state
    · rw [hl]
    · rw [Lisa.acceptPre_ok hst h.distinct.type ho] at herr
      cases herr
    · exact htrue
  · intro hpos
    rcases Lisa.recvPart1Pre_cases (h.distinct.server hpos).1 (h.distinct.high hpos) with hret | hsel
    · unfold Lisa.recvPart1Pre at hret
      rw [if_neg (fun herr => h.state (Lisa.code_neg_iff.1 herr))] at hret
      split at hret
      · cases hret
      · cases hret
    · exact hsel
  · intro c hc
    exact ⟨(h.casts.casts c hc).reachesOthers h.distinct.nodup, h.full c hc⟩

theorem whole_of_inHand {r : ReceiverPc} (h : r.inHand = 0) (b : Buffers) : r.Whole f b := by
  unfold ReceiverPc.inHand at h
  unfold ReceiverPc.Whole
  split at h <;> simp_all

theorem small_set {client : Mem ClientData} {j : Nat} {c : ClientData} (h : ∀ i, (client i).bytesReceived ≤ maxSize)
    (hc : c.bytesReceived ≤ maxSize) (i : Nat) : (client.set j c i).bytesReceived ≤ maxSize := by
  by_cases hi : i = j
  · subst hi
    rw [Mem.set_self]; exact hc
  · rw [Mem.set_of_ne _ _ hi]; exact h i

theorem FailInv.listener {a : ListenerAct} (h : s.FailInv f) (hG : Contained f s (.listener a))
    (hs : s.stepListener a = some t) : t.FailInv f := by
  obtain ⟨hfails, hdir, -⟩ := hG
  have hd := h.distinct.listener hdir.1 hs
  have hc := h.casts.listener h.distinct.toServed hs
  cases a with
  | readCount =>
    obtain ⟨-, hs⟩ := Option.ite_none_right_eq_some.1 hs
    cases hs
    exact ⟨hd, hc, h.state, h.small, h.receiver, h.full⟩
  | acceptPre o =>
    obtain ⟨n, -, -, rfl⟩ := acceptPre_cases hs
    refine ⟨hd, hc, ?_, h.small, h.receiver, h.full⟩
    rcases Lisa.acceptPre_state o h.distinct.type (fun hlt => (h.distinct.low hlt).imp_right And.left) with
      ⟨-, herr⟩ | ⟨hl, -⟩ | ⟨hst, -, -⟩
    · exact absurd herr h.state
    · show (s.lp.acceptPre o).1.state ≠ .error
      rw [hl]; exact h.state
    · show (s.lp.acceptPre o).1.state ≠ .error
      rw [Lisa.acceptPre_ok hst h.distinct.type hfails]; nofun
  | acceptPost o =>
    obtain ⟨n, -, -, -, rfl⟩ := acceptPost_cases hs
    refine ⟨hd, hc, ?_, h.small, h.receiver, h.full⟩
    show (s.lp.acceptPost o).1.state ≠ .error
    unfold Lisa.acceptPost Lisa.addClient
    split
    · cases hfails
    · nofun
    · nofun
    · split
      · split <;> nofun
      · nofun
  | compareCount =>
    obtain ⟨n, -, rfl⟩ := compareCount_cases hs
    exact ⟨hd, hc, h.state, h.small, h.receiver, h.full⟩
  | register =>
    obtain ⟨⟨-, hl⟩, hs⟩ := Option.ite_none_right_eq_some.1 hs
    cases hs
    exact ⟨hd, hc, h.state, small_set h.small (Nat.zero_le _), whole_of_inHand (inHand_of_unlocked hl) _, h.full⟩

theorem FailInv.castSeek {k : Casting} (h : s.FailInv f) (hd : (s.castSeek k).Distinct)
    (hc : (s.castSeek k).CastInv [] 0) (hk : k.Whole f s.buffers) : (s.castSeek k).FailInv f := by
  rcases castSeek_cases s k with ⟨j, -, he⟩ | ⟨-, he⟩
  · rw [he] at hd hc ⊢
    exact ⟨hd, hc, h.state, h.small, ⟨hk.received, hk.small, hk.full⟩, h.full⟩
  · rw [he] at hd hc ⊢
    refine ⟨hd, hc, h.state, small_set h.small ?_, trivial, fun c hmem => ?_⟩
    · have hb := h.small k.clnum
      show u32 (((s.buffers.client k.clnum).bytesReceived : Int) - _) ≤ maxSize
      rw [u32_sub hk.received (Nat.lt_of_le_of_lt hb (by decide))]
      omega
    · rcases List.mem_append.1 hmem with hmem | hmem
      · exact h.full c hmem
      · rw [List.mem_singleton.1 hmem]; exact hk.full

theorem received_le {c : ClientData} {l : Lisa} {rc : Int} {bs : List UInt8} (hc : c.bytesReceived ≤ maxSize)
    (hrc : (rc = -1 ∧ bs = []) ∨ rc = bs.length ∧ bs.length ≤ c.bufferRemaining ∧ l.thisFd ≠ 0)
    (hpos : 0 ≤ rc ∨ 0 < c.bytesReceived) : (c.received (l.recvPart2 rc).2 bs).bytesReceived ≤ maxSize := by
  show u32 (c.bytesReceived + (l.recvPart2 rc).2) ≤ maxSize
  rcases hrc with ⟨rfl, rfl⟩ | ⟨rfl, hle, hfd⟩
  · have hres : (l.recvPart2 (-1)).2 = -1 := by unfold Lisa.recvPart2; split <;> rfl
    rw [hres]
    unfold maxSize u32 at *
    omega
  · have hres : (l.recvPart2 bs.length).2 = bs.length := by unfold Lisa.recvPart2; rw [if_pos hfd]
    rw [hres]
    unfold ClientData.bufferRemaining maxSize u32 at *
    omega

theorem FailInv.beforeRecv (h : s.FailInv f) (hd : t.Distinct) (hc : t.CastInv [] 0) (hb : BeforeRecv s t) :
    t.FailInv f := by
  refine ⟨hd, hc, ?_, ?_, whole_of_inHand hb.inHand' _, ?_⟩
  · rw [hb.state]; exact h.state
  · rw [hb.buffers]; exact h.small
  · rw [hb.casts]; exact h.full

theorem FailInv.sendPre (h : s.FailInv f) (hG : Contained f s (.receiver .sendPre)) (hs : s.stepReceiver .sendPre = some t) :
    t.FailInv f := by
  have hd := h.distinct.receiver hs
  have hc := h.casts.step h.distinct.toServed hG.2.1 (show s.step (.receiver .sendPre) = some t from hs)
  have hr := h.receiver
  obtain ⟨k, hpc, hpre⟩ := sendPre_cases hs
  have hpos : 0 < s.lp.numClients := h.distinct.busy (by simp [hpc])
  have hdir : s.lp.clientFd = s.lp.clientFds k.i := by simpa [directed, knowsTarget, hpc] using hG.2.1.2
  have hquiet : s.lp.clientFds k.i = f ∨ ¬(s.lp.state = .accepted ∧ s.lp.clientState = .error) := by
    have hquiet := hG.2.2
    unfold contained at hquiet
    rw [hpc] at hquiet
    exact of_decide_eq_true hquiet
  rw [hpc] at hr
  rcases hpre with ⟨hnone, -⟩ | ⟨c, hcall, rfl⟩
  · -- a lisa with clients that is not in error is connected
    unfold Lisa.sendPre at hnone
    rw [if_neg (Int.not_lt.2 ((h.distinct.high hpos).resolve_left h.state))] at hnone
    cases hnone
  · obtain ⟨hsvr, htcp⟩ := h.distinct.server hpos
    have hsock := Lisa.sendPre_socket (by simp [hsvr]) hcall
    obtain ⟨htype, hstate⟩ := Lisa.sendPre_call hcall
    refine ⟨hd, hc, h.state, h.small, ⟨hr, htype.trans htcp, fun hne herr => ?_⟩, h.full⟩
    rw [hsock, hdir] at hne
    rcases hstate with ⟨-, hst⟩ | ⟨hacc, hst⟩
    · exact h.state (hst.symm.trans herr)
    · exact hquiet.resolve_left hne ⟨hacc, hst.symm.trans herr⟩

theorem FailInv.send {outs : List SendOutcome} (h : s.FailInv f) (hG : Contained f s (.receiver (.send outs)))
    (hs : s.stepReceiver (.send outs) = some t) : t.FailInv f := by
  have hd := h.distinct.receiver hs
  have hc := h.casts.step h.distinct.toServed hG.2.1 (show s.step (.receiver (.send outs)) = some t from hs)
  have hr := h.receiver
  obtain ⟨k, c, r, hpc, hbody, rfl⟩ := send_cases hs
  obtain ⟨hset, hok⟩ : outs.all SendOutcome.isSet = true ∧ (outs.all SendOutcome.ok = true ∨ c.thisSocket = f) := by
    have hfails := hG.1
    unfold OnlyFails onlyFails at hfails
    rw [hpc] at hfails
    exact of_decide_eq_true hfails
  have hquiet : c.thisState = .error ∨ (outs.map SendOutcome.result).sum < 0 → s.lp.state = .accepted := by
    have hquiet := hG.2.2
    unfold contained at hquiet
    rw [hpc] at hquiet
    exact of_decide_eq_true hquiet
  rw [hpc] at hr
  obtain ⟨hk, htcp, hne⟩ := hr
  have hlen : k.cast.pkt.bytes.length < 2 ^ 31 := Nat.lt_of_le_of_lt hk.small (by decide)
  refine ⟨hd, hc, ?_, h.small, ⟨hk.received, hk.small, ?_⟩, h.full⟩
  · show (s.lp.sendPost r.thisState).state ≠ .error
    unfold Lisa.sendPost
    split
    · next hacc =>
      intro herr
      exact hacc (hquiet (Lisa.sendBody_error hlen hset hbody herr))
    · exact h.state
  · intro p hp hpf
    rcases List.mem_append.1 hp with hp | hp
    · exact hk.full p hp hpf
    · rw [List.mem_singleton.1 hp] at hpf ⊢
      exact Lisa.sendBody_full (Nat.lt_of_lt_of_le hlen (by decide)) htcp (hne hpf) (hok.resolve_right hpf) hbody

theorem FailInv.receiver_step {a : ReceiverAct} (h : s.FailInv f) (hG : Contained f s (.receiver a))
    (hs : s.stepReceiver a = some t) : t.FailInv f := by
  have hd := h.distinct.receiver hs
  have hc := h.casts.step h.distinct.toServed hG.2.1 (show s.step (.receiver a) = some t from hs)
  have hr := h.receiver
  cases a with
  | readCount => exact h.beforeRecv hd hc (.readCount hs)
  | part1Pre => exact h.beforeRecv hd hc (.part1Pre hs)
  | part1Post ready => exact h.beforeRecv hd hc (.part1Post hs)
  | clientForFd => exact h.beforeRecv hd hc (.clientForFd hs)
  | part2 rc bs =>
    obtain ⟨clfd, clnum, locked, hpc, hrc, rfl⟩ := part2_cases hs
    have hpos : 0 ≤ rc ∨ 0 < (s.buffers.client clnum).bytesReceived := by simpa [contained, hpc] using hG.2.2
    refine ⟨hd, hc, ?_, small_set h.small (received_le (h.small clnum) hrc hpos), trivial, h.full⟩
    show (s.lp.recvPart2 rc).1.state ≠ .error
    rw [Lisa.state_recvPart2]; exact h.state
  | loop =>
    obtain ⟨clfd, clnum, hpc, ⟨-, hready, rfl⟩ | ⟨-, -, rfl⟩ | ⟨-, rfl⟩⟩ := loop_cases hs
    · have hsmall := h.small clnum
      refine ⟨hd, hc, h.state, small_set h.small (by simpa using hsmall), ?_, h.full⟩
      show (s.buffers.client.set clnum _ clnum).bytesExpected ≤ (s.buffers.client.set clnum _ clnum).bytesReceived
      rw [Mem.set_self]
      exact (ClientData.pktReady_iff.1 hready).2
    · have hsmall := h.small clnum
      refine ⟨hd, hc, h.state, small_set h.small (by simpa using hsmall), ?_, h.full⟩
      rw [hpc]; trivial
    · exact ⟨hd, hc, h.state, small_set h.small (h.small clnum), trivial, h.full⟩
  | castStart =>
    obtain ⟨clfd, clnum, hpc, rfl⟩ := castStart_cases hs
    rw [hpc] at hr
    refine h.castSeek hd hc ⟨hr, ?_, nofun⟩
    show ((s.buffers.client clnum).buffer.read _ (s.buffers.client clnum).bytesExpected).length ≤ maxSize
    rw [Mem.length_read]
    exact Nat.le_trans hr (h.small clnum)
  | sendPre => exact h.sendPre hG hs
  | send outs => exact h.send hG hs
  | castNext =>
    obtain ⟨k, hpc, rfl⟩ := castNext_cases hs
    rw [hpc] at hr
    exact h.castSeek hd hc ⟨hr.received, hr.small, hr.full⟩

theorem FailInv.step {a : Act} (h : s.FailInv f) (hG : Contained f s a) (hs : s.step a = some t) : t.FailInv f := by
  cases a with
  | listener a => exact h.listener hG hs
  | receiver a => exact h.receiver_step hG hs

theorem FailInv.path {acts : List Act} (hp : Path Sys.step (Contained f) s acts t) (h : s.FailInv f) : t.FailInv f :=
  hp.invariant (Sys.FailInv f) (fun _ _ _ hi hG hs => hi.step hG hs) h

end Sys

theorem failInv_initListener (f : Int) : (Sys.init initListener).FailInv f :=
  ⟨distinct_initListener, .init _, nofun, fun _ => Nat.zero_le _, trivial, nofun⟩

/-- When only sends to one client and receives from it fail, the lisa keeps working and all other
clients get every packet in full, in the runs in which a failed `lisa_send` finds `l->state` accepted,
no other `lisa_send` begins before its `LISA_ERROR` is replaced, and a failed `recv` finds bytes in
the buffer. -/
theorem others_unharmed (f : Int) (acts : List Act) (s : Sys)
    (h : Path Sys.step (Sys.Contained f) (Sys.init initListener) acts s) : s.Unharmed f :=
  ((failInv_initListener f).path h).unharmed

/-- The last client fails while the lisa is in `LISA_ACCEPTED`. -/
theorem others_unharmed_last : ∃ s,
    Path Sys.step (Sys.Contained 6) (Sys.init initListener)
      (acceptCall 4 ++ acceptCall 5 ++ acceptCall 6 ++ [.receiver .readCount, .receiver .part1Pre,
        .receiver (.part1Post (some [4])), .receiver .clientForFd, .receiver (.part2 20 (List.replicate 20 0)),
        .receiver .loop, .receiver .castStart, .receiver .sendPre, .receiver (.send [.sends 20]), .receiver .castNext,
        .receiver .sendPre, .receiver (.send [.sends (-1)]), .receiver .castNext]) s ∧
    s.casts.map (fun c => c.sends.map fun p => (p.1, p.2.length)) = [[(5, 20), (6, 0)]] ∧ s.Unharmed 6 := by
  refine ⟨_, .of_run (by decide +kernel), by decide +kernel, ?_⟩
  exact others_unharmed 6 _ _ (.of_run (by decide +kernel))

/-- After a time out of `lisa_accept`, the first client fails. -/
theorem not_others_unharmed : ¬ ∀ (f : Int) (acts : List Act) (s : Sys),
    Path Sys.step (Sys.OnlyFails f) (Sys.init initListener) acts s → s.Unharmed f := by
  intro h
  have hbad := h 5 (acceptCall 4 ++ acceptCall 5 ++ acceptCall 6 ++ [.listener .readCount,
    .listener (.acceptPre ⟨3, 0, 0, 0⟩), .listener (.acceptPost .timeout), .listener .compareCount,
    .receiver .readCount, .receiver .part1Pre, .receiver (.part1Post (some [4])), .receiver .clientForFd,
    .receiver (.part2 20 (List.replicate 20 0)), .receiver .loop, .receiver .castStart, .receiver .sendPre,
    .receiver (.send [.sends (-1)])]) _ (.of_run (by decide +kernel))
  exact hbad.state (by decide +kernel)

end Bcaster
end WlanxVms
