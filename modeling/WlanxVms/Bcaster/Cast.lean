import WlanxVms.Bcaster.Tables

/-!
# Who gets a packet

`lisa_cast` takes the client to leave out from `l->client_fd` when it begins, and passes the target
of each `lisa_send` in the same field. When nobody stored into the field in between, it sends to the
table without the sender, in the order of the table: clients accepted during the call come last.
-/

namespace WlanxVms
namespace Bcaster

/-- Every client that was registered when the call began gets the packet, its sender does not, and
nobody gets it twice. -/
structure Cast.ReachesOthers (c : Cast) : Prop where
  all : ∀ fd ∈ c.registered, fd ≠ c.sender → fd ∈ c.sends.map Prod.fst
  once : (c.sends.map Prod.fst).Nodup
  notBack : c.sender ∉ c.sends.map Prod.fst

/-- The call sent to the clients of a table `tbl` that has grown from the one it began with. -/
def Cast.Done (base table : List Int) (c : Cast) : Prop :=
  ∃ tbl, base <+: c.registered ∧ c.registered <+: tbl ∧ tbl <+: table ∧
    c.sends.map Prod.fst = tbl.filter (· ≠ c.sender)

/-- The call is through with the first `n` clients. -/
structure Casting.Begun (base table : List Int) (n : Nat) (k : Casting) : Prop where
  last : k.lastClient = k.cast.sender
  grown : base <+: k.cast.registered
  registered : k.cast.registered <+: table
  bound : n ≤ table.length
  sends : k.cast.sends.map Prod.fst = (table.take n).filter (· ≠ k.cast.sender)

def ReceiverPc.Casts (base table : List Int) : ReceiverPc → Prop
  | .target k => k.Begun base table k.i ∧ ∃ fd, table[k.i]? = some fd ∧ fd ≠ k.cast.sender
  | .sending k c => k.Begun base table k.i ∧ table[k.i]? = some c.thisSocket ∧ c.thisSocket ≠ k.cast.sender
  | .sent k => k.Begun base table (k.i + 1)
  | _ => True

/-- The call of `lisa_cast` under way. -/
def ReceiverPc.cast : ReceiverPc → Option Cast
  | .target k | .sending k _ | .sent k => some k.cast
  | _ => none

section
variable {base table table' : List Int} {n : Nat} {k : Casting} {c : Cast} {r : ReceiverPc}

theorem Cast.Done.mono (h : c.Done base table) (ht : table <+: table') : c.Done base table' := by
  obtain ⟨tbl, h₁, h₂, h₃, h₄⟩ := h
  exact ⟨tbl, h₁, h₂, h₃.trans ht, h₄⟩

theorem Cast.Done.reachesOthers (hc : c.Done base table) (hnodup : table.Nodup) : c.ReachesOthers := by
  obtain ⟨tbl, -, hreg, htbl, hsends⟩ := hc
  refine ⟨?_, ?_, ?_⟩
  · intro fd hfd hne
    rw [hsends]
    exact List.mem_filter.2 ⟨hreg.subset hfd, decide_eq_true hne⟩
  · rw [hsends]
    exact (hnodup.sublist htbl.sublist).filter _
  · rw [hsends]
    intro hmem
    exact of_decide_eq_true (List.mem_filter.1 hmem).2 rfl

theorem Casting.Begun.mono (h : k.Begun base table n) (ht : table <+: table') : k.Begun base table' n := by
  obtain ⟨ext, rfl⟩ := ht
  refine ⟨h.last, h.grown, h.registered.trans (List.prefix_append ..), ?_, ?_⟩
  · rw [List.length_append]; exact Nat.le_add_right_of_le h.bound
  · rw [List.take_append_of_le_length h.bound]; exact h.sends

theorem ReceiverPc.Casts.mono (h : r.Casts base table) (ht : table <+: table') : r.Casts base table' := by
  have hget : ∀ {i : Nat} {fd : Int}, table[i]? = some fd → table'[i]? = some fd := by
    intro i fd hi
    obtain ⟨ext, rfl⟩ := ht
    rw [List.getElem?_append_left (List.getElem?_eq_some_iff.1 hi).1]; exact hi
  cases r with
  | target k =>
    obtain ⟨hk, fd, hfd, hne⟩ := h
    exact ⟨hk.mono ht, fd, hget hfd, hne⟩
  | sending k c => exact ⟨h.1.mono ht, hget h.2.1, h.2.2⟩
  | sent k => exact Casting.Begun.mono h ht
  | _ => trivial

theorem Casting.Begun.log (h : k.Begun base table k.i) {fd : Int} (hfd : table[k.i]? = some fd)
    (hne : fd ≠ k.cast.sender) (took : List UInt8) : (k.log fd took).Begun base table (k.i + 1) := by
  obtain ⟨hlt, hget⟩ := List.getElem?_eq_some_iff.1 hfd
  refine ⟨h.last, h.grown, h.registered, hlt, ?_⟩
  show (k.cast.sends ++ [(fd, took)]).map Prod.fst = (table.take (k.i + 1)).filter (· ≠ k.cast.sender)
  rw [List.map_append, h.sends, List.take_add_one, List.filter_append, hfd]
  simp [hne]

end

namespace Sys
variable {s t : Sys} {base : List Int} {n : Nat}

/-- `lisa_cast` begins with the sender in `l->client_fd`, and `lisa_send` finds the target there. -/
def knowsSender (s : Sys) : Bool :=
  match s.receiver with
  | .casting clfd _ => s.lp.clientFd = clfd
  | _ => true

def knowsTarget (s : Sys) : Bool :=
  match s.receiver with
  | .target k => s.lp.clientFd = s.lp.clientFds k.i
  | _ => true

/-- The invariant of the broadcasts, for runs from a state with the table `base` and `n` packets
received. -/
structure CastInv (base : List Int) (n : Nat) (s : Sys) : Prop where
  grown : base <+: s.lp.table
  receiver : s.receiver.Casts base s.lp.table
  casts : ∀ c ∈ s.casts, c.Done base s.lp.table
  packets : s.packetsReceived = n + s.casts.length + s.receiver.inHand

theorem CastInv.listener {a : ListenerAct} (h : s.CastInv base n) (hsv : s.Served)
    (hs : s.stepListener a = some t) : t.CastInv base n := by
  have hf := listener_frame hs
  have ht := table_grows hsv hs
  refine ⟨h.grown.trans ht, ?_, fun c hc => ?_, ?_⟩
  · rw [hf.receiver]; exact h.receiver.mono ht
  · exact (h.casts c (hf.casts ▸ hc)).mono ht
  · rw [hf.packetsReceived, hf.casts, hf.receiver]; exact h.packets

theorem CastInv.of_frame (h : s.CastInv base n) (hf : ReceiverFrame s t) (hr : t.receiver.Casts base s.lp.table)
    (hcasts : t.casts = s.casts) (hp : t.packetsReceived = n + s.casts.length + t.receiver.inHand) :
    t.CastInv base n := by
  refine ⟨?_, ?_, fun c hc => ?_, ?_⟩
  · rw [hf.lp.table]; exact h.grown
  · rw [hf.lp.table]; exact hr
  · rw [hf.lp.table]; exact h.casts c (hcasts ▸ hc)
  · rw [hcasts]; exact hp

theorem CastInv.castSeek {k : Casting} (h : s.CastInv base n) (hr : s.receiver.inHand = 1)
    (hk : k.Begun base s.lp.table k.i) : (s.castSeek k).CastInv base n := by
  have hp := h.packets
  rcases castSeek_cases s k with ⟨j, hj, he⟩ | ⟨hj, he⟩
  · obtain ⟨hget, hne, hlt, hfilter⟩ := Lisa.castFind_eq_some hj
    rw [he]
    refine ⟨h.grown, ⟨⟨hk.last, hk.grown, hk.registered, Nat.le_of_lt hlt, ?_⟩, _, hget, ?_⟩, h.casts, ?_⟩
    · rw [hk.last] at hfilter
      exact hk.sends.trans hfilter.symm
    · rw [← hk.last]; exact hne
    · rw [hr] at hp; exact hp
  · have hfilter := Lisa.castFind_eq_none hk.bound hj
    rw [hk.last] at hfilter
    rw [he]
    refine ⟨h.grown, trivial, fun c hc => ?_, ?_⟩
    · rcases List.mem_append.1 hc with hc | hc
      · exact h.casts c hc
      · rw [List.mem_singleton.1 hc]
        exact ⟨s.lp.table, hk.grown, hk.registered, List.prefix_rfl, hk.sends.trans hfilter⟩
    · show s.packetsReceived = n + (s.casts ++ [k.cast]).length + 0
      rw [hp, hr, List.length_append, List.length_singleton, Nat.add_assoc]
      rfl

theorem casts_of_inHand {r : ReceiverPc} (h : r.inHand = 0) (table : List Int) : r.Casts base table := by
  unfold ReceiverPc.inHand at h
  unfold ReceiverPc.Casts
  split at h <;> simp_all

theorem CastInv.beforeRecv (h : s.CastInv base n) (hf : ReceiverFrame s t) (hb : BeforeRecv s t) : t.CastInv base n := by
  have hp := h.packets
  rw [hb.inHand] at hp
  refine h.of_frame hf (casts_of_inHand hb.inHand' _) hb.casts ?_
  rw [hb.inHand', hb.packetsReceived, hp]

theorem CastInv.receiver_step {a : ReceiverAct} (h : s.CastInv base n) (hsv : s.Served)
    (hsender : a = .castStart → s.knowsSender = true) (htarget : a = .sendPre → s.knowsTarget = true)
    (hs : s.stepReceiver a = some t) : t.CastInv base n := by
  have hf := receiver_frame hs
  have hr := h.receiver
  have hp := h.packets
  cases a with
  | readCount => exact h.beforeRecv hf (.readCount hs)
  | part1Pre => exact h.beforeRecv hf (.part1Pre hs)
  | part1Post ready => exact h.beforeRecv hf (.part1Post hs)
  | clientForFd => exact h.beforeRecv hf (.clientForFd hs)
  | part2 rc bs =>
    obtain ⟨clfd, clnum, locked, hpc, -, rfl⟩ := part2_cases hs
    rw [hpc] at hp
    exact h.of_frame hf trivial rfl hp
  | loop =>
    obtain ⟨clfd, clnum, hpc, ⟨-, -, rfl⟩ | ⟨-, -, rfl⟩ | ⟨-, rfl⟩⟩ := loop_cases hs
    · rw [hpc] at hp
      exact h.of_frame hf trivial rfl (congrArg (· + 1) hp)
    · exact h.of_frame hf hr rfl hp
    · rw [hpc] at hp
      exact h.of_frame hf trivial rfl hp
  | castStart =>
    obtain ⟨clfd, clnum, hpc, rfl⟩ := castStart_cases hs
    have hknown : s.lp.clientFd = clfd := by simpa [knowsSender, hpc] using hsender rfl
    exact h.castSeek (by rw [hpc]; rfl) ⟨hknown, h.grown, List.prefix_rfl, Nat.zero_le _, rfl⟩
  | sendPre =>
    obtain ⟨k, hpc, hpre⟩ := sendPre_cases hs
    have hknown : s.lp.clientFd = s.lp.clientFds k.i := by simpa [knowsTarget, hpc] using htarget rfl
    rw [hpc] at hr hp
    obtain ⟨hk, fd, hfd, hne⟩ := hr
    have hi : k.i < s.lp.numClients.toNat := by
      rw [← Lisa.length_table]; exact (List.getElem?_eq_some_iff.1 hfd).1
    have hsame : fd = s.lp.clientFds k.i := Option.some.inj (hfd.symm.trans (Lisa.getElem?_table _ _ hi))
    rw [hsame, ← hknown] at hfd hne
    rcases hpre with ⟨-, rfl⟩ | ⟨c, hc, rfl⟩
    · exact h.of_frame hf (hk.log hfd hne _) rfl hp
    · have hsvr := (hsv.server (hsv.busy (by simp [hpc]))).1
      have hsock := Lisa.sendPre_socket (by simp [hsvr]) hc
      exact h.of_frame hf ⟨hk, by rw [hsock]; exact hfd, by rw [hsock]; exact hne⟩ rfl hp
  | send outs =>
    obtain ⟨k, c, r, hpc, -, rfl⟩ := send_cases hs
    rw [hpc] at hr hp
    obtain ⟨hk, hfd, hne⟩ := hr
    exact h.of_frame hf (hk.log hfd hne _) rfl hp
  | castNext =>
    obtain ⟨k, hpc, rfl⟩ := castNext_cases hs
    rw [hpc] at hr
    exact h.castSeek (by rw [hpc]; rfl) ⟨hr.last, hr.grown, hr.registered, hr.bound, hr.sends⟩

/-! ### The calls of the receiver alone -/

/-- A server with clients, between the calls of the two threads. -/
structure Ready (s : Sys) : Prop where
  listener : s.listener = .idle
  receiver : s.receiver = .idle
  casts : s.casts = []
  state : LisaState.connected.code ≤ s.lp.state.code
  clsvr : s.lp.clsvr = .server
  type : s.lp.type = .tcp
  numClients : s.lp.numClients = s.buffers.numClients
  tables : s.buffers.table = s.lp.table
  nodup : s.lp.table.Nodup
  openFds : ∀ fd ∈ s.lp.table, fd ∈ s.openFds
  bound : s.lp.numClients ≤ maxClients

theorem Ready.inStep (h : s.Ready) : s.InStep := by
  have hlis : ¬s.lp.state.code < LisaState.listening.code := by
    have hcode : LisaState.listening.code < LisaState.connected.code := by decide
    have hst := h.state
    omega
  have hserved : s.Served := by
    refine ⟨?_, by simp [h.type], fun hlt => absurd hlt hlis, fun _ => ⟨h.clsvr, h.type⟩, fun _ => .inr h.state,
      fun hne => absurd h.receiver hne, by rw [h.receiver]; trivial⟩
    rw [h.listener]; exact h.numClients
  refine ⟨⟨hserved, h.nodup, h.openFds, h.bound⟩, ?_, by rw [h.receiver]; trivial, by rw [h.receiver]; trivial⟩
  rw [h.tables, List.take_of_length_le]
  rw [Lisa.length_table, h.numClients]; exact Nat.le_refl _

/-- Each `lisa_cast` finds the sender of its packet in `l->client_fd`. -/
def SenderKnown (s : Sys) : ReceiverAct → Prop
  | .castStart => s.knowsSender = true
  | _ => True

instance (s : Sys) (a : ReceiverAct) : Decidable (SenderKnown s a) := by
  unfold SenderKnown; split <;> infer_instance

/-- The listener does not run, and the table is `base`. -/
structure Alone (base : List Int) (n : Nat) (s : Sys) : Prop where
  inStep : s.InStep
  casts : s.CastInv base n
  listener : s.listener = .idle
  table : s.lp.table = base
  target : s.knowsTarget = true

theorem knowsTarget_castSeek (s : Sys) (k : Casting) : (s.castSeek k).knowsTarget = true := by
  rcases castSeek_cases s k with ⟨j, -, he⟩ | ⟨-, he⟩
  · rw [he]; exact decide_eq_true rfl
  · rw [he]; rfl

theorem knowsTarget_of_inHand (h : s.receiver.inHand = 0) : s.knowsTarget = true := by
  unfold ReceiverPc.inHand at h
  unfold knowsTarget
  split at h <;> simp_all

theorem knowsTarget_receiver {a : ReceiverAct} (h : s.knowsTarget = true) (hs : s.stepReceiver a = some t) :
    t.knowsTarget = true := by
  cases a with
  | readCount => exact knowsTarget_of_inHand (BeforeRecv.readCount hs).inHand'
  | part1Pre => exact knowsTarget_of_inHand (BeforeRecv.part1Pre hs).inHand'
  | part1Post ready => exact knowsTarget_of_inHand (BeforeRecv.part1Post hs).inHand'
  | clientForFd => exact knowsTarget_of_inHand (BeforeRecv.clientForFd hs).inHand'
  | part2 rc bs => obtain ⟨clfd, clnum, locked, -, -, rfl⟩ := part2_cases hs; rfl
  | loop =>
    obtain ⟨clfd, clnum, -, ⟨-, -, rfl⟩ | ⟨-, -, rfl⟩ | ⟨-, rfl⟩⟩ := loop_cases hs
    · rfl
    · exact h
    · rfl
  | castStart => obtain ⟨clfd, clnum, -, rfl⟩ := castStart_cases hs; exact knowsTarget_castSeek ..
  | sendPre => obtain ⟨k, -, ⟨-, rfl⟩ | ⟨c, -, rfl⟩⟩ := sendPre_cases hs <;> rfl
  | send outs => obtain ⟨k, c, r, -, -, rfl⟩ := send_cases hs; rfl
  | castNext => obtain ⟨k, -, rfl⟩ := castNext_cases hs; exact knowsTarget_castSeek ..

theorem Alone.step {a : ReceiverAct} (h : s.Alone base n) (hG : SenderKnown s a) (hs : s.stepReceiver a = some t) :
    t.Alone base n := by
  have hf := receiver_frame hs
  have hc := h.inStep.counts
  rw [h.listener] at hc
  have hpaired : Paired s (.receiver a) := by
    refine ⟨rfl, ?_⟩
    have hdrop : s.lp.table.drop s.buffers.numClients = [] :=
      List.drop_of_length_le (by rw [Lisa.length_table, show s.lp.numClients = _ from hc]; exact Nat.le_refl _)
    unfold paired
    split
    · next he => cases he
    · split
      · rw [hdrop]; rfl
      · rfl
    · rfl
  refine ⟨h.inStep.receiver hpaired hs, h.casts.receiver_step h.inStep.toServed ?_ (fun _ => h.target) hs,
    hf.listener.trans h.listener, hf.lp.table.trans h.table, knowsTarget_receiver h.target hs⟩
  rintro rfl
  exact hG

theorem Ready.alone (h : s.Ready) : s.Alone s.lp.table s.packetsReceived := by
  refine ⟨h.inStep, ⟨List.prefix_rfl, ?_, ?_, ?_⟩, h.listener, rfl, ?_⟩
  · rw [h.receiver]; trivial
  · rw [h.casts]; nofun
  · rw [h.casts, h.receiver]; rfl
  · unfold knowsTarget; rw [h.receiver]

theorem Alone.path {acts : List ReceiverAct} (hp : Path Sys.stepReceiver SenderKnown s acts t) (h : s.Alone base n) :
    t.Alone base n :=
  hp.invariant (Sys.Alone base n) (fun _ _ _ hi hG hs => hi.step hG hs) h

end Sys

/-- While no client is accepted, every packet received is sent to each client but its sender, once
each, provided that `lisa_cast` finds the sender in `l->client_fd`: a packet that follows another in
one chunk does not, when the other was sent to somebody. -/
theorem packet_sentToOthers (s₀ : Sys) (hs₀ : s₀.Ready) (acts : List ReceiverAct) (s : Sys)
    (h : Path Sys.stepReceiver Sys.SenderKnown s₀ acts s) :
    (∀ c ∈ s.casts, c.registered = s₀.lp.table ∧ c.sends.map Prod.fst = s₀.lp.table.filter (· ≠ c.sender)) ∧
      s.receiver.InTable s.buffers ∧
      s.packetsReceived = s₀.packetsReceived + s.casts.length + s.receiver.inHand := by
  have ha := hs₀.alone.path h
  refine ⟨fun c hc => ?_, ha.inStep.inTable, ha.casts.packets⟩
  obtain ⟨tbl, hbase, hreg, htbl, hsends⟩ := ha.casts.casts c hc
  rw [ha.table] at htbl
  have heq : tbl = s₀.lp.table := htbl.eq_of_length_le (hbase.trans hreg).length_le
  subst heq
  exact ⟨hreg.eq_of_length_le hbase.length_le, hsends⟩

/-- Three clients, registered in both tables. -/
def threeClients : Sys :=
  { lp := ⟨3, 6, ((Mem.fill 4).set 1 5).set 2 6, 0, 3, .accepted, .connected, .tcp, .server, true⟩,
    buffers := ⟨3, fun i => ⟨4 + i, 0, 0, Mem.fill 0, 0⟩⟩, listener := .idle, receiver := .idle,
    packetsReceived := 0, openFds := [4, 5, 6], casts := [] }

theorem threeClients_ready : threeClients.Ready :=
  ⟨rfl, rfl, rfl, by decide, rfl, rfl, rfl, rfl, by decide, by decide, by decide⟩

/-- One packet of 20 bytes from the first client. -/
theorem packet_sentToOthers_one : ∃ s,
    Path Sys.stepReceiver Sys.SenderKnown threeClients
      [.readCount, .part1Pre, .part1Post (some [4]), .clientForFd, .part2 20 (List.replicate 20 0), .loop, .castStart,
        .sendPre, .send [.sends 20], .castNext, .sendPre, .send [.sends 20], .castNext] s ∧
    s.casts.map (fun c => (c.sender, c.sends.map Prod.fst)) = [(4, [5, 6])] ∧
    ∀ c ∈ s.casts, c.registered = threeClients.lp.table ∧
      c.sends.map Prod.fst = threeClients.lp.table.filter (· ≠ c.sender) := by
  refine ⟨_, .of_run (by decide +kernel), by decide +kernel, ?_⟩
  exact (packet_sentToOthers _ threeClients_ready _ _ (.of_run (by decide +kernel))).1

/-- Two packets in one chunk: the second goes back to its sender, and not to the last client. -/
theorem not_packet_sentToOthers : ¬ ∀ (s₀ : Sys), s₀.Ready → ∀ (acts : List ReceiverAct) (s : Sys),
    Path Sys.stepReceiver AnyStep s₀ acts s →
    (∀ c ∈ s.casts, c.registered = s₀.lp.table ∧ c.sends.map Prod.fst = s₀.lp.table.filter (· ≠ c.sender)) ∧
      s.receiver.InTable s.buffers ∧
      s.packetsReceived = s₀.packetsReceived + s.casts.length + s.receiver.inHand := by
  intro h
  obtain ⟨hbad, -⟩ := h threeClients threeClients_ready
    [.readCount, .part1Pre, .part1Post (some [4]), .clientForFd, .part2 40 (List.replicate 40 0), .loop, .castStart,
      .sendPre, .send [.sends 20], .castNext, .sendPre, .send [.sends 20], .castNext, .loop, .castStart,
      .sendPre, .send [.sends 20], .castNext, .sendPre, .send [.sends 20], .castNext] _ (.of_run (by decide +kernel))
  revert hbad
  decide +kernel

/-! ### When the sender is known -/

/-- No chunk has a second packet, unless there is `one` client only; `cast` says that there was a packet already. -/
def OnePerChunk (one : Bool) : Bool → List ReceiverAct → Bool
  | _, [] => true
  | _, .part2 .. :: acts => OnePerChunk one false acts
  | cast, .castStart :: acts => (one || !cast) && OnePerChunk one true acts
  | cast, _ :: acts => OnePerChunk one cast acts

/-- `l->client_fd` from the selection of a client to the first `lisa_cast` for it -/
def ReceiverPc.Keeps (one cast : Bool) (lp : Lisa) : ReceiverPc → Prop
  | .selecting fds _ => ∀ fd ∈ fds, fd ∈ lp.table
  | .picked clfd _ | .found clfd _ _ => lp.clientFd = clfd
  | .loop clfd _ | .casting clfd _ => one = true ∨ cast = false → lp.clientFd = clfd
  | .target _ | .sending .. | .sent _ => one = false ∧ cast = true
  | _ => True

section
variable {l : Lisa} {thisFd fd : Int} {ready : Option (List Int)}

theorem clientFd_recvPart1Post (h0 : 0 ∉ l.table) (hready : ∀ r ∈ ready, r ≠ [] ∧ ∀ fd ∈ r, fd ∈ l.table) :
    (l.recvPart1Post thisFd ready).2 < 0 ∨
      (l.recvPart1Post thisFd ready).1.clientFd = (l.recvPart1Post thisFd ready).2 := by
  cases ready with
  | none => exact .inl (show (-1 : Int) < 0 by decide)
  | some fds =>
    obtain ⟨hne, hmem⟩ := hready fds rfl
    obtain ⟨fd, hfd⟩ := List.exists_mem_of_ne_nil fds hne
    cases hfind : l.table.find? fun fd => fd ∈ fds with
    | none => exact absurd (decide_eq_true hfd) (List.find?_eq_none.1 hfind fd (hmem fd hfd))
    | some fd' =>
      have hnz : fd' ≠ 0 := fun hz => h0 (hz ▸ List.mem_of_find?_eq_some hfind)
      refine .inr ?_
      simp only [Lisa.recvPart1Post, hfind, if_pos hnz]

theorem castFind_alone (hone : l.table.length ≤ 1) (hfd : fd ∈ l.table) (i : Nat) : l.castFind fd i = none := by
  refine Option.eq_none_iff_forall_ne_some.2 fun j hj => ?_
  obtain ⟨hget, hne, -, -⟩ := Lisa.castFind_eq_some hj
  obtain ⟨x, hx⟩ := List.length_eq_one_iff.1 (Nat.le_antisymm hone (List.length_pos_of_mem hfd))
  have hmem := List.mem_of_getElem? hget
  rw [hx, List.mem_singleton] at hmem hfd
  exact hne (hmem.trans hfd.symm)

end

namespace Sys
variable {s t : Sys} {base : List Int} {n : Nat} {one cast : Bool}

theorem keeps_castSeek {k : Casting} (hk : one = true → s.lp.castFind k.lastClient k.i = none)
    (hfd : one = true → s.lp.clientFd = k.cast.sender) : (s.castSeek k).receiver.Keeps one true (s.castSeek k).lp := by
  rcases castSeek_cases s k with ⟨j, hj, he⟩ | ⟨-, he⟩
  · rw [he]
    refine ⟨Bool.eq_false_iff.2 fun h1 => ?_, rfl⟩
    rw [hk h1] at hj
    cases hj
  · rw [he]
    rintro (h1 | hc)
    · exact hfd h1
    · cases hc

/-- With one packet in each chunk, the sender is the client that was selected last. -/
theorem Alone.keeps {a : ReceiverAct} {acts : List ReceiverAct} (h : s.Alone base n) (h0 : 0 ∉ base)
    (hone : one = true → base.length ≤ 1) (hk : s.receiver.Keeps one cast s.lp)
    (hacts : OnePerChunk one cast (a :: acts) = true) (hs : s.stepReceiver a = some t) :
    SenderKnown s a ∧ ∃ cast', t.receiver.Keeps one cast' t.lp ∧ OnePerChunk one cast' acts = true := by
  have htab := h.inStep.inTable
  cases a with
  | readCount =>
    obtain ⟨-, rfl⟩ := readCount_cases hs
    refine ⟨trivial, cast, ?_, hacts⟩
    show (if s.buffers.numClients = 0 then ReceiverPc.idle else .part1).Keeps one cast s.lp
    split <;> trivial
  | part1Pre =>
    obtain ⟨hr, hpre⟩ := part1Pre_cases hs
    have hpos : 0 < s.lp.numClients := h.inStep.busy (by simp [hr])
    refine ⟨trivial, cast, ?_, hacts⟩
    rcases Lisa.recvPart1Pre_cases (h.inStep.server hpos).1 (h.inStep.high hpos) with hret | hsels
    · rw [hret] at hpre
      obtain ⟨rc, hrc, rfl⟩ | ⟨fds, thisFd, hc, -⟩ := hpre
      · cases hrc
        trivial
      · cases hc
    · rw [hsels] at hpre
      obtain ⟨rc, hrc, -⟩ | ⟨fds, thisFd, hc, rfl⟩ := hpre
      · cases hrc
      · cases hc
        exact fun fd hfd => hfd
  | part1Post ready =>
    obtain ⟨fds, thisFd, hr, hready, rfl⟩ := part1Post_cases hs
    rw [hr] at hk
    refine ⟨trivial, cast, ?_, hacts⟩
    show (if (s.lp.recvPart1Post thisFd ready).2 < 0 then ReceiverPc.idle else .picked _ true).Keeps one cast _
    by_cases hneg : (s.lp.recvPart1Post thisFd ready).2 < 0
    · rw [if_pos hneg]
      trivial
    · rw [if_neg hneg]
      exact (clientFd_recvPart1Post (h.table ▸ h0) fun r hr => ⟨(hready r hr).1,
        fun fd hfd => hk fd ((hready r hr).2 fd hfd)⟩).resolve_left hneg
  | clientForFd =>
    obtain ⟨clfd, locked, hr, ⟨clnum, -, rfl⟩ | ⟨-, rfl⟩⟩ := clientForFd_cases hs
    · rw [hr] at hk
      exact ⟨trivial, cast, hk, hacts⟩
    · exact ⟨trivial, cast, trivial, hacts⟩
  | part2 rc bs =>
    obtain ⟨clfd, clnum, locked, hr, -, rfl⟩ := part2_cases hs
    rw [hr] at hk
    refine ⟨trivial, false, fun _ => ?_, hacts⟩
    show (s.lp.recvPart2 rc).1.clientFd = clfd
    unfold Lisa.recvPart2
    split <;> exact hk
  | loop =>
    obtain ⟨clfd, clnum, hr, ⟨-, -, rfl⟩ | ⟨-, -, rfl⟩ | ⟨-, rfl⟩⟩ := loop_cases hs
    · rw [hr] at hk
      exact ⟨trivial, cast, hk, hacts⟩
    · exact ⟨trivial, cast, hk, hacts⟩
    · exact ⟨trivial, cast, trivial, hacts⟩
  | castStart =>
    obtain ⟨clfd, clnum, hr, rfl⟩ := castStart_cases hs
    rw [hr] at hk htab
    obtain ⟨hfirst, hacts⟩ := Bool.and_eq_true_iff.1 hacts
    have hfd : s.lp.clientFd = clfd := hk (by simpa using hfirst)
    refine ⟨by simpa [SenderKnown, knowsSender, hr] using hfd, true, keeps_castSeek (fun h1 => ?_) fun _ => hfd, hacts⟩
    have hmem : clfd ∈ s.lp.table := by
      have hbuf : clfd ∈ s.buffers.table := List.mem_map.2 ⟨clnum, List.mem_range.2 htab.1, htab.2⟩
      rw [h.inStep.table] at hbuf
      exact List.mem_of_mem_take hbuf
    exact castFind_alone (h.table ▸ hone h1) (hfd ▸ hmem) 0
  | sendPre =>
    obtain ⟨k, hr, ⟨-, rfl⟩ | ⟨c, -, rfl⟩⟩ := sendPre_cases hs
    · rw [hr] at hk
      exact ⟨trivial, cast, hk, hacts⟩
    · rw [hr] at hk
      exact ⟨trivial, cast, hk, hacts⟩
  | send outs =>
    obtain ⟨k, c, r, hr, -, rfl⟩ := send_cases hs
    rw [hr] at hk
    exact ⟨trivial, cast, hk, hacts⟩
  | castNext =>
    obtain ⟨k, hr, rfl⟩ := castNext_cases hs
    rw [hr] at hk
    obtain ⟨h1, rfl⟩ := hk
    exact ⟨trivial, true, keeps_castSeek (fun hc => absurd hc (by simp [h1])) (fun hc => absurd hc (by simp [h1])), hacts⟩

theorem Alone.senderKnown {acts : List ReceiverAct} (hp : Path Sys.stepReceiver AnyStep s acts t) (h : s.Alone base n)
    (h0 : 0 ∉ base) (hone : one = true → base.length ≤ 1) (hk : s.receiver.Keeps one cast s.lp)
    (hacts : OnePerChunk one cast acts = true) : Path Sys.stepReceiver SenderKnown s acts t := by
  induction hp generalizing cast with
  | nil => exact .nil _
  | cons _ hs _ ih =>
    obtain ⟨hG, cast', hk', hacts'⟩ := h.keeps h0 hone hk hacts hs
    exact .cons hG hs (ih (h.step hG hs) hk' hacts')

end Sys

/-- As long as no chunk has a second packet while another client is registered, each `lisa_cast` finds its sender. No
client has the descriptor 0, which `lisa_recv_part1` takes for none. -/
theorem senderKnown_of_onePerChunk {s₀ s : Sys} (hs₀ : s₀.Ready) (h0 : 0 ∉ s₀.lp.table) {acts : List ReceiverAct}
    (h : Path Sys.stepReceiver AnyStep s₀ acts s)
    (hacts : OnePerChunk (decide (s₀.lp.table.length ≤ 1)) false acts = true) :
    Path Sys.stepReceiver Sys.SenderKnown s₀ acts s :=
  hs₀.alone.senderKnown h h0 of_decide_eq_true (by rw [hs₀.receiver]; trivial) hacts

/-! ### The calls of both threads -/

namespace Sys
variable {s t : Sys} {base : List Int} {n : Nat}

/-- `lisa_cast` and `lisa_send` find in `l->client_fd` what they were given there, `client_fds` has room
and `client_for_fd` finds the client. -/
def directed (s : Sys) : Act → Bool
  | .receiver .clientForFd =>
    match s.receiver with
    | .picked clfd _ => (s.buffers.clientForFd clfd).isSome
    | _ => true
  | .receiver .castStart => s.knowsSender
  | .receiver .sendPre => s.knowsTarget
  | _ => true

def Directed (s : Sys) (a : Act) : Prop := s.hasRoom a = true ∧ s.directed a = true

instance (s : Sys) (a : Act) : Decidable (Directed s a) := inferInstanceAs (Decidable (_ ∧ _))

theorem CastInv.step {a : Act} (h : s.CastInv base n) (hsv : s.Served) (hG : Directed s a) (hs : s.step a = some t) :
    t.CastInv base n := by
  cases a with
  | listener a => exact h.listener hsv hs
  | receiver a =>
    refine h.receiver_step hsv ?_ ?_ hs
    · rintro rfl; exact hG.2
    · rintro rfl; exact hG.2

theorem CastInv.init (lp : Lisa) : (Sys.init lp).CastInv [] 0 :=
  ⟨List.nil_prefix, trivial, nofun, rfl⟩

theorem CastInv.underWay (h : s.CastInv base n) (hnodup : s.lp.table.Nodup) {c : Cast} (hc : c ∈ s.receiver.cast) :
    (c.sends.map Prod.fst).Nodup ∧ c.sender ∉ c.sends.map Prod.fst := by
  have hbegun : ∀ {k : Casting} {m : Nat}, k.Begun base s.lp.table m → k.cast = c →
      (c.sends.map Prod.fst).Nodup ∧ c.sender ∉ c.sends.map Prod.fst := by
    rintro k m hk rfl
    rw [hk.sends]
    constructor
    · exact (hnodup.sublist (List.take_sublist ..)).filter _
    · intro hmem
      exact of_decide_eq_true (List.mem_filter.1 hmem).2 rfl
  have hr := h.receiver
  cases hpc : s.receiver with
  | target k => rw [hpc] at hr hc; exact hbegun hr.1 (Option.some.inj hc)
  | sending k call => rw [hpc] at hr hc; exact hbegun hr.1 (Option.some.inj hc)
  | sent k => rw [hpc] at hr hc; exact hbegun hr (Option.some.inj hc)
  | _ => rw [hpc] at hc; cases hc

theorem directed_path {acts : List Act} (hp : Path Sys.step Directed s acts t) (hd : s.Distinct)
    (hc : s.CastInv base n) : t.Distinct ∧ t.CastInv base n :=
  hp.invariant (fun s => s.Distinct ∧ s.CastInv base n)
    (fun _ _ _ hi hG hs => ⟨hi.1.step hG.1 hs, hi.2.step hi.1.toServed hG hs⟩) ⟨hd, hc⟩

end Sys

theorem distinct_initListener : (Sys.init initListener).Distinct := .init nofun rfl rfl

/-- However many clients are accepted meanwhile, a packet is sent to all the clients that were
registered when its `lisa_cast` began, but never to its sender and to nobody twice, if no other
connection stores into `l->client_fd` before `lisa_cast` and `lisa_send` have read it. -/
theorem cast_reachesOthers (acts : List Act) (s : Sys)
    (h : Path Sys.step Sys.Directed (Sys.init initListener) acts s) :
    (∀ c ∈ s.casts, c.ReachesOthers) ∧
      ∀ c ∈ s.receiver.cast, (c.sends.map Prod.fst).Nodup ∧ c.sender ∉ c.sends.map Prod.fst := by
  obtain ⟨hd, hc⟩ := Sys.directed_path h distinct_initListener (.init _)
  constructor
  · intro c hmem
    exact (hc.casts c hmem).reachesOthers hd.nodup
  · intro c hmem
    exact hc.underWay hd.nodup hmem

/-- Two clients, and a third that is accepted while the socket of the second takes the packet. -/
theorem cast_reachesOthers_one : ∃ s,
    Path Sys.step Sys.Directed (Sys.init initListener)
      (acceptCall 4 ++ acceptCall 5 ++ [.receiver .readCount, .receiver .part1Pre, .receiver (.part1Post (some [4])),
        .receiver .clientForFd, .receiver (.part2 20 (List.replicate 20 0)), .receiver .loop, .receiver .castStart,
        .receiver .sendPre, .listener .readCount, .listener (.acceptPre ⟨3, 0, 0, 0⟩),
        .listener (.acceptPost (.accepts 6)), .receiver (.send [.sends 20]), .receiver .castNext, .receiver .sendPre,
        .receiver (.send [.sends 20]), .receiver .castNext]) s ∧
    s.casts.map (fun c => (c.sender, c.sends.map Prod.fst)) = [(4, [5, 6])] ∧ ∀ c ∈ s.casts, c.ReachesOthers := by
  refine ⟨_, .of_run (by decide +kernel), by decide +kernel, ?_⟩
  exact (cast_reachesOthers _ _ (.of_run (by decide +kernel))).1

/-- A third client is accepted between the `recv` and the `lisa_cast`: it is left out, and the packet
goes back to its sender. -/
theorem not_cast_reachesOthers : ¬ ∀ (acts : List Act) (s : Sys),
    Path Sys.step AnyStep (Sys.init initListener) acts s →
    (∀ c ∈ s.casts, c.ReachesOthers) ∧
      ∀ c ∈ s.receiver.cast, (c.sends.map Prod.fst).Nodup ∧ c.sender ∉ c.sends.map Prod.fst := by
  intro h
  obtain ⟨-, hbad⟩ := h (acceptCall 4 ++ acceptCall 5 ++ [.receiver .readCount, .receiver .part1Pre,
    .receiver (.part1Post (some [4])), .receiver .clientForFd, .receiver (.part2 20 (List.replicate 20 0)),
    .receiver .loop, .listener .readCount, .listener (.acceptPre ⟨3, 0, 0, 0⟩), .listener (.acceptPost (.accepts 6)),
    .receiver .castStart, .receiver .sendPre, .receiver (.send [.sends 20])]) _ (.of_run (by decide +kernel))
  have hback := (hbad _ rfl).2
  revert hback
  decide +kernel

end Bcaster
end WlanxVms
