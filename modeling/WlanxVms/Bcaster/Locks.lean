import WlanxVms.Lisa.Locks
import WlanxVms.Bcaster.Threads

/-!
# The locks of the bcaster (`lisa.c`, `main.c`)

`repeatReceivingFunction` is one step of the receiver with the locks that it takes itself and those that the
lisa functions take for it. The record before the first of `buffers.client`, which `CLIENT` is for the index `-1`,
lies on `buffers.lock`: a `CLIENT` that is no entry of the array ends the run, and so does one whose bytes do not
lie in its buffer.

`disciplined_iff` is about a call of any of these functions from any state, with any answers and whatever other
threads do: it keeps the discipline unless it is a `lisa_connect` that refuses the address, which returns with
the lock, or a step of the receiver for which `lisa_recv_part1` reports `0` without the lock, a negative
descriptor with it, or one that `buffers` does not list.
-/

namespace WlanxVms
namespace Bcaster.Locks

open Locked Lisa.Locks

/-- The answers for one step of the receiver: of the `select`, what `recv` returns and stores, and what the sends
of each round of the `while` loop get. -/
structure StepOutcome where
  sel : SelectOutcome
  recv : Int
  bytes : List UInt8
  rounds : List (List (List SendOutcome))

def client (clnum : Nat) : Prog Buffers ClientData := do return (← view).rest.client clnum

def setClient (clnum : Nat) (f : ClientData → ClientData) : Prog Buffers Unit :=
  update fun s => { s with rest := s.rest.setClient clnum (f (s.rest.client clnum)) }

def processPkt (clnum : Nat) (outs : List (List SendOutcome)) : Prog Buffers Unit := do
  let c ← client clnum
  if matchEnd (c.buffer.read c.nextPkt stopMsg.length) then setLisa fun l => l.lisaCloseClient
  else
    let _ ← lisaCast c.pkt.bytes outs
    return ()

/-- The `while` loop. -/
def packetRounds (clnum : Nat) : List (List (List SendOutcome)) → Prog Buffers Unit
  | [] => do if (← client clnum).loopCond then stop .unanswered else return ()
  | o :: outs => do
    if (← client clnum).loopCond then
      setClient clnum fun c => c.readExpected
      if (← client clnum).pktReady then
        processPkt clnum o
        setClient clnum fun c => c.consume
        packetRounds clnum outs
      else packetRounds clnum outs
    else return ()

/-- What the client has received, from `next_pkt` on, lies in its buffer. -/
def InBuffer (c : ClientData) : Prop := c.nextPkt + c.bytesReceived ≤ maxSize

instance (c : ClientData) : Decidable (InBuffer c) := inferInstanceAs (Decidable (_ ≤ _))

/-- `repeat_receiving_function` from the `recv` on. -/
def receiveClient (clnum : Nat) (o : StepOutcome) : Prog Buffers Unit := do
  let rc ← lisaRecvWithPart 2 o.sel o.recv
  setClient clnum fun c => c.received rc o.bytes
  if InBuffer (← client clnum) then
    packetRounds clnum o.rounds
    setClient clnum fun c => c.relocate
    unlock .buffers
  else stop .crash

/-- `repeat_receiving_function` from the second `pthread_mutex_lock` on. -/
def receiveFrom (clfd : Int) (o : StepOutcome) : Prog Buffers Unit := do
  lock .buffers
  match (← view).rest.clientForFd clfd with
  | none => stop .crash
  | some clnum => if clnum < maxClients then receiveClient clnum o else stop .crash

def repeatReceivingFunction (o : StepOutcome) : Prog Buffers Unit := do
  lock .buffers
  let numClients := (← view).rest.numClients
  unlock .buffers
  if numClients = 0 then return ()
  else
    let clfd ← lisaRecvWithPart 1 o.sel o.recv
    if clfd < 0 then return () else receiveFrom clfd o

/-! ### The discipline -/

inductive Call where
  | connect (addr : Option (List UInt8)) (o : ConnectOutcome)
  | accept (o : ListenOutcome) (out : AcceptOutcome)
  | send (msg : List UInt8) (outs : List SendOutcome)
  | cast (msg : List UInt8) (outs : List (List SendOutcome))
  | sendTo (addr : Option (List UInt8)) (o : SendToOutcome)
  | recv (sel : SelectOutcome) (rc : Int)
  | recvBcaster (sel : SelectOutcome) (rc : Int)
  | recvFrom (o : RecvFromOutcome)
  | repeatReceiving (o : StepOutcome)

def Call.body : Call → Prog Buffers Unit
  | .connect addr o => lisaConnect addr o
  | .accept o out => discard (lisaAccept o out)
  | .send msg outs => discard (lisaSend msg outs)
  | .cast msg outs => discard (lisaCast msg outs)
  | .sendTo addr o => discard (lisaSendTo addr o)
  | .recv sel rc => discard (lisaRecv sel rc)
  | .recvBcaster sel rc => discard (lisaRecvWithPart 12 sel rc)
  | .recvFrom o => discard (lisaRecvFrom o)
  | .repeatReceiving o => repeatReceivingFunction o

/-- How a call may end without a return: only a null address ends the program, and only a loop that sends or that
goes through packets can need more answers. -/
def Call.MayStop : Call → Stop → Prop
  | .connect addr _, e => e = .crash ∧ addr = none
  | .sendTo addr _, e => e = .crash ∧ addr = none
  | .send .., e => e = .unanswered
  | .cast .., e => e = .unanswered
  | .repeatReceiving _, e => e = .unanswered
  | _, _ => False

/-- Called without a lock, it never takes a lock that it has nor releases one that it does not have, and it
returns without a lock. -/
def Disciplined (c : Call) (s : Shared Buffers) (others : Nat → Shared Buffers → Shared Buffers) : Prop :=
  wp c.MayStop c.body (fun _ h => h.held = []) (Holder.start s others)

/-- The descriptor that the receiver comes to: `l₁` is the lisa before the `select`, `l₂` the lisa after it. -/
def selectedFd (l₁ l₂ : Lisa) (ready : List Int) : Int :=
  if l₂.clsvr = .client then l₂.fd
  else if readyFd l₂ ready ≠ 0 then readyFd l₂ ready
  else if l₁.clsvr = .client then 0
  else l₁.table.getLastD 0

/-- The lisa with that descriptor stored. -/
def storeSelected (l₁ l₂ : Lisa) (ready : List Int) : Lisa :=
  if l₂.clsvr = .client then { l₂ with thisFd := l₂.fd }
  else { l₂ with clientFd := readyFd l₂ ready, thisFd := selectedFd l₁ l₂ ready }

/-- The descriptor is that of an entry of `buffers`, and what `recv` returns leaves the bytes of the client in its
buffer. -/
def Serves (s : Shared Buffers) (fd recv : Int) (bytes : List UInt8) : Prop :=
  ∃ clnum, s.rest.clientForFd fd = some clnum ∧ clnum < maxClients ∧
    InBuffer ((s.rest.client clnum).received (if s.l.thisFd ≠ 0 then recv else -1) bytes)

def Connected (l : Lisa) : Prop := LisaState.connected.code ≤ l.state.code ∧ l.clsvr ≠ .unknown

/-- A step of the receiver, from the states that the shared data has when it takes `buffers.lock`, `l->lock`, and
`l->lock` again, and from what others do before it takes `buffers.lock` again. -/
def StepGuard (o : StepOutcome) (s₀ s₁ s₂ : Shared Buffers) (others : Shared Buffers → Shared Buffers) : Prop :=
  s₀.rest.numClients ≠ 0 → 0 ≤ s₁.l.state.code →
    Connected s₁.l ∧ (0 < o.sel.rc →
      0 ≤ selectedFd s₁.l s₂.l o.sel.ready ∧
      Serves (others { s₂ with l := storeSelected s₁.l s₂.l o.sel.ready }) (selectedFd s₁.l s₂.l o.sel.ready) o.recv
        o.bytes)

/-- `lisa_connect`, from the lisa that it finds when it takes the lock. -/
def ConnectGuard (addr : Option (List UInt8)) (o : ConnectOutcome) (l : Lisa) : Prop :=
  0 ≤ l.state.code → (l.state.code < LisaState.created.code → 0 ≤ o.setup.socket ∧ 0 ≤ o.setup.fcntl) →
    ¬Refuses l.vsock addr o

/-- When the call keeps the discipline. -/
def Call.Guard (s : Shared Buffers) (others : Nat → Shared Buffers → Shared Buffers) : Call → Prop
  | .connect addr o => ConnectGuard addr o (others 0 s).l
  | .repeatReceiving o =>
    StepGuard o (others 0 s) (others 1 (others 0 s)) (others 2 (others 1 (others 0 s))) (others 3)
  | _ => True

variable {E : Stop → Prop} {h : Holder LockName (Shared Buffers)} {ks : List LockName}

@[simp] theorem wp_client {clnum : Nat} {Q : ClientData → Holder LockName (Shared Buffers) → Prop} :
    wp E (client clnum) Q h ↔ Q (h.shared.rest.client clnum) h := Iff.rfl

@[simp] theorem wp_setClient {clnum : Nat} {f : ClientData → ClientData}
    {Q : Unit → Holder LockName (Shared Buffers) → Prop} :
    wp E (setClient clnum f) Q h ↔
      Q () (h.map fun s => { s with rest := s.rest.setClient clnum (f (s.rest.client clnum)) }) := Iff.rfl

theorem processPkt_keeps (hk : .lisa ∉ ks) (hE : E .unanswered) (clnum : Nat)
    (outs : List (List SendOutcome)) : Keeps E (processPkt clnum outs) ks fun _ => ks := by
  intro h hh
  simp only [processPkt, wp_bind, wp_client, wp_ite, wp_setLisa, wp_pure]
  split
  · exact hh
  · exact lisaCast_keeps hk hE _ outs h hh

theorem packetRounds_keeps (hk : .lisa ∉ ks) (hE : E .unanswered) (clnum : Nat)
    (outs : List (List (List SendOutcome))) : Keeps E (packetRounds clnum outs) ks fun _ => ks := by
  induction outs with
  | nil =>
    intro h hh
    simp [packetRounds, hh, hE]
  | cons o outs ih =>
    intro h hh
    simp only [packetRounds, wp_bind, wp_client, wp_setClient, wp_ite, wp_pure]
    split
    · split
      · exact (processPkt_keeps hk hE clnum o).wp hh fun _ h hh => ih _ hh
      · exact ih _ hh
    · exact hh

theorem recvPart2_spec (sel : SelectOutcome) (recv : Int) (hh : .lisa ∈ h.held) :
    wp (fun _ => False) (lisaRecvWithPart 2 sel recv)
      (fun rc h' => rc = (if h.shared.l.thisFd ≠ 0 then recv else -1) ∧ h'.held = h.held.erase .lisa ∧
        h'.shared.rest = h.shared.rest) h := by
  simp only [lisaRecvWithPart, if_true, recvStored, recvData, recvFinish, wp_bind, wp_lisa, wp_ite, wp_setLisa,
    wp_unlock, wp_pure, Holder.map_held, hh]
  by_cases hfd : h.shared.l.thisFd ≠ 0
  · rw [if_pos hfd, if_pos hfd]
    split <;> exact ⟨rfl, rfl, rfl⟩
  · rw [if_neg hfd, if_neg hfd]
    exact ⟨rfl, rfl, rfl⟩

/-- With both locks, the rest of the step gives them back where the bytes of the client stay in its buffer. -/
theorem receiveClient_iff (hE : E .unanswered) (hc : ¬E .crash) (clnum : Nat) (o : StepOutcome)
    (hh : h.held = [.buffers, .lisa]) :
    wp E (receiveClient clnum o) (fun _ h => h.held = []) h ↔
      InBuffer ((h.shared.rest.client clnum).received (if h.shared.l.thisFd ≠ 0 then o.recv else -1) o.bytes) := by
  have hspec := recvPart2_spec (h := h) o.sel o.recv (by simp [hh])
  obtain ⟨⟨rc, h'⟩, hrun, hrc, hheld, hrest⟩ := wp_never_iff.1 hspec
  have hheld : h'.held = [.buffers] := by simpa [hh] using hheld
  simp only [receiveClient, wp_bind]
  rw [wp_of_run hrun, ← hrc]
  simp only [wp_setClient, wp_client, wp_ite, wp_stop, wp_bind, Holder.map_shared, Buffers.setClient, Mem.set_self]
  rw [show h'.shared.rest = h.shared.rest from hrest]
  split
  · next hin =>
    refine iff_of_true ?_ hin
    refine (packetRounds_keeps (by simp) hE clnum o.rounds).wp hheld fun _ h hh => ?_
    simp [hh]
  · next hout => exact iff_of_false hc hout

/-- With the lock of part 1, the step comes to its end for a client that `buffers` lists. -/
theorem receiveFrom_iff (hE : E .unanswered) (hc : ¬E .crash) (clfd : Int) (o : StepOutcome) (hh : h.held = [.lisa]) :
    wp E (receiveFrom clfd o) (fun _ h => h.held = []) h ↔
      Serves (h.others 0 h.shared) clfd o.recv o.bytes := by
  simp only [receiveFrom, wp_bind, wp_lock, wp_view, hh]
  rw [if_neg (by simp), Holder.acquire_shared]
  unfold Serves
  cases hfind : (h.others 0 h.shared).rest.clientForFd clfd with
  | none =>
    refine iff_of_false hc ?_
    rintro ⟨_, heq, -⟩
    cases heq
  | some clnum =>
    simp only [wp_ite, wp_stop, Option.some_inj, exists_eq_left']
    split
    · next hlt =>
      rw [receiveClient_iff hE hc clnum o (by simp [hh])]
      exact (and_iff_right hlt).symm
    · next hge => exact iff_of_false hc fun hserves => hge hserves.1

/-- Without it, part 2 releases a lock that the thread does not have. -/
theorem receiveFrom_unlocked (hm : ¬E .misuse) (hc : ¬E .crash) (clfd : Int) (o : StepOutcome) (hh : h.held = []) :
    ¬wp E (receiveFrom clfd o) (fun _ h => h.held = []) h := by
  simp only [receiveFrom, wp_bind, wp_lock, wp_view, hh]
  rw [if_neg List.not_mem_nil]
  cases (h.acquire LockName.buffers).shared.rest.clientForFd clfd with
  | none => exact hc
  | some clnum =>
    simp only [receiveClient, lisaRecvWithPart, wp_ite, wp_stop, wp_bind, if_true]
    split
    · rw [recvStored_unlocked _ _ _ (by simp [hh])]
      exact hm
    · exact hc

theorem pickFd_snd (l₁ l₂ : Lisa) (ready : List Int) :
    (pickFd l₂ (lastSelected l₁ 0) ready).2 = selectedFd l₁ l₂ ready := by
  unfold pickFd lastSelected selectedFd
  by_cases h₂ : l₂.clsvr = .client
  · simp only [h₂, if_true]
  · by_cases hr : readyFd l₂ ready = 0 <;> simp [h₂, hr]

theorem pickFd_stored (l₁ l₂ : Lisa) (ready : List Int) :
    { (pickFd l₂ (lastSelected l₁ 0) ready).1 with thisFd := selectedFd l₁ l₂ ready } =
      storeSelected l₁ l₂ ready := by
  unfold pickFd storeSelected
  by_cases h₂ : l₂.clsvr = .client
  · simp only [h₂, if_true, selectedFd]
  · simp only [h₂, if_false]

theorem recvPart1_spec (sel : SelectOutcome) (rc : Int) (hh : h.held = []) :
    wp (fun _ => False) (lisaRecvWithPart 1 sel rc)
      (fun clfd h' =>
        (clfd = -1 ∧ h'.held = [] ∧
          ((h.others 0 h.shared).l.state.code < 0 ∨ Connected (h.others 0 h.shared).l ∧ sel.rc ≤ 0)) ∨
        (clfd = 0 ∧ h'.held = [] ∧ 0 ≤ (h.others 0 h.shared).l.state.code ∧ ¬Connected (h.others 0 h.shared).l) ∨
        (h'.held = [.lisa] ∧ Connected (h.others 0 h.shared).l ∧ 0 < sel.rc ∧
          clfd = selectedFd (h.others 0 h.shared).l (h.others 1 (h.others 0 h.shared)).l sel.ready ∧
          h'.shared = { h.others 1 (h.others 0 h.shared) with
            l := storeSelected (h.others 0 h.shared).l (h.others 1 (h.others 0 h.shared)).l sel.ready } ∧
          h'.others = fun n => h.others (n + 2))) h := by
  simp only [lisaRecvWithPart, wp_bind, wp_lock, wp_lisa, wp_ite, hh, List.not_mem_nil, if_false, Nat.reduceEqDiff,
    Holder.acquire_shared]
  by_cases hs : (h.others 0 h.shared).l.state.code < 0
  · simp [hs, hh]
  · by_cases hc : (h.others 0 h.shared).l.state.code < LisaState.connected.code ∨
        (h.others 0 h.shared).l.clsvr = .unknown
    · have hn : ¬Connected (h.others 0 h.shared).l := by
        rintro ⟨h1, h2⟩
        exact hc.elim (Int.not_lt.2 h1) h2
      simp [hs, hc, hn, hh, Int.not_lt.1 hs]
    · have hn : Connected (h.others 0 h.shared).l := by
        rw [not_or] at hc
        exact ⟨Int.not_lt.1 hc.1, hc.2⟩
      by_cases hr : sel.rc ≤ 0
      · simp [hs, hc, hn, hr, hh, recvFinish]
      · simp [hs, hc, hn, hr, hh, pickFd_snd, pickFd_stored, Int.not_le.1 hr, Holder.acquire]

theorem repeatReceiving_iff (hE : E .unanswered) (hm : ¬E .misuse) (hc : ¬E .crash) (o : StepOutcome)
    (hh : h.held = []) :
    wp E (repeatReceivingFunction o) (fun _ h => h.held = []) h ↔
      StepGuard o (h.others 0 h.shared) (h.others 1 (h.others 0 h.shared))
        (h.others 2 (h.others 1 (h.others 0 h.shared))) (h.others 3) := by
  simp only [repeatReceivingFunction, wp_bind, wp_lock, wp_unlock, wp_view, wp_ite, wp_pure, hh, List.not_mem_nil,
    if_false, Holder.acquire_held, List.mem_singleton, if_true, Holder.acquire_shared, StepGuard]
  by_cases hn : (h.others 0 h.shared).rest.numClients = 0
  · simp [hn, hh]
  · have hspec := recvPart1_spec (h := (h.acquire .buffers).release .buffers) o.sel o.recv (by simp [hh])
    obtain ⟨⟨clfd, h'⟩, hrun, hcases⟩ := wp_never_iff.1 hspec
    simp only [Holder.release_others, Holder.acquire_others, Holder.release_shared, Holder.acquire_shared,
      Nat.zero_add, Nat.reduceAdd] at hcases
    simp only [hn, if_false, ne_eq, not_false_eq_true, forall_const]
    rw [wp_of_run hrun]
    rcases hcases with ⟨rfl, hheld, hcase⟩ | ⟨rfl, hheld, hs, hcase⟩ | ⟨hheld, hconn, hr, rfl, hshared, hothers⟩
    · rw [if_pos (show (-1 : Int) < 0 by decide)]
      refine iff_of_true hheld fun hs => ?_
      rcases hcase with hneg | ⟨hconn, hr⟩
      · exact absurd hs (Int.not_le.2 hneg)
      · exact ⟨hconn, fun hpos => absurd hr (Int.not_le.2 hpos)⟩
    · rw [if_neg (Int.lt_irrefl 0)]
      exact iff_of_false (receiveFrom_unlocked hm hc 0 o hheld) fun hguard => hcase (hguard hs).1
    · have hs : 0 ≤ (h.others 1 (h.others 0 h.shared)).l.state.code := Int.le_trans (by decide) hconn.1
      split
      · next hneg =>
        rw [hheld]
        exact iff_of_false (by simp) fun hguard => absurd ((hguard hs).2 hr).1 (Int.not_le.2 hneg)
      · next hneg =>
        rw [receiveFrom_iff hE hc _ o hheld, hshared, hothers]
        exact ⟨fun hserves _ => ⟨hconn, fun _ => ⟨Int.not_lt.1 hneg, hserves⟩⟩,
          fun hguard => ((hguard hs).2 hr).2⟩

theorem keeps_discard {α : Type} {m : Prog Buffers α} (hm : Keeps E m ks fun _ => ks) :
    Keeps E (discard m) ks fun _ => ks := fun h hh => (wp_map _).2 (hm h hh)

/-- `lisa_connect` returns with the lock where it refuses the address, although `lisa_send_to` unlocks after the
same check; the receiver unlocks what it has not locked when part 1 is not connected, and returns with the lock
when part 1 reports a negative descriptor. Nothing else breaks the discipline. -/
theorem disciplined_iff (c : Call) (s : Shared Buffers) (others : Nat → Shared Buffers → Shared Buffers) :
    Disciplined c s others ↔ c.Guard s others := by
  have hk : LockName.lisa ∉ ([] : List LockName) := List.not_mem_nil
  cases c with
  | connect addr o => exact lisaConnect_iff hk (fun haddr => ⟨rfl, haddr⟩) o rfl
  | accept o out => exact iff_of_true (keeps_discard (lisaAccept_keeps hk o out) _ rfl) trivial
  | send msg outs =>
    have hE : (Call.send msg outs).MayStop .unanswered := rfl
    exact iff_of_true (keeps_discard (lisaSend_keeps hk hE msg outs) _ rfl) trivial
  | cast msg outs =>
    have hE : (Call.cast msg outs).MayStop .unanswered := rfl
    exact iff_of_true (keeps_discard (lisaCast_keeps hk hE msg outs) _ rfl) trivial
  | sendTo addr o =>
    exact iff_of_true (keeps_discard (lisaSendTo_keeps hk (fun haddr => ⟨rfl, haddr⟩) o) _ rfl) trivial
  | recv sel rc => exact iff_of_true (keeps_discard (lisaRecv_keeps hk sel rc) _ rfl) trivial
  | recvBcaster sel rc =>
    exact iff_of_true (keeps_discard (lisaRecvWithPart_keeps hk (by decide) (by decide) sel rc) _ rfl) trivial
  | recvFrom o => exact iff_of_true (keeps_discard (lisaRecvFrom_keeps hk o) _ rfl) trivial
  | repeatReceiving o =>
    have hE : (Call.repeatReceiving o).MayStop .unanswered := rfl
    have hm : ¬(Call.repeatReceiving o).MayStop .misuse := fun hm => nomatch hm
    have hc : ¬(Call.repeatReceiving o).MayStop .crash := fun hc => nomatch hc
    exact repeatReceiving_iff hE hm hc o rfl

/-- A lisa with one client in the buffers, that no other thread uses. -/
def oneClient (l : Lisa) : Shared Buffers :=
  { l, blocking := false,
    rest := ⟨1, Mem.fill ⟨4, 0, 0, Mem.fill 0, 0⟩⟩ }

def connectX : Call :=
  .connect (some [120])
    { setup := ⟨3, 0, 0, 0⟩, inetPton := 1, connect := 0, inProgress := false, select := 1 }

def stepQuiet : Call := .repeatReceiving { sel := ⟨0, []⟩, recv := 0, bytes := [], rounds := [] }

/-- `lisa_connect` of a vsock lisa with the address `"x"`, and a step of the receiver of a lisa that listens. -/
theorem not_disciplined :
    ¬Disciplined connectX (oneClient { lServer with vsock := true }) (fun _ s => s) ∧
      ¬Disciplined stepQuiet (oneClient { lServer with state := .listening, clsvr := .server }) (fun _ s => s) := by
  constructor
  · have hiff : Disciplined connectX (oneClient { lServer with vsock := true }) (fun _ s => s) ↔ _ :=
      lisaConnect_iff List.not_mem_nil (fun haddr => nomatch haddr) _ rfl
    refine mt hiff.1 fun hguard => ?_
    exact hguard (by decide) (fun _ => by decide) ⟨[120], rfl, by decide⟩
  · have hE : stepQuiet.MayStop .unanswered := rfl
    have hm : ¬stepQuiet.MayStop .misuse := fun hm => nomatch hm
    have hc : ¬stepQuiet.MayStop .crash := fun hc => nomatch hc
    have hiff : Disciplined stepQuiet (oneClient { lServer with state := .listening, clsvr := .server })
        (fun _ s => s) ↔ _ :=
      repeatReceiving_iff hE hm hc _ rfl
    refine mt hiff.1 fun hguard => ?_
    have hconn := (hguard (by decide) (by decide)).1.1
    exact absurd hconn (by decide)

end Bcaster.Locks
end WlanxVms
