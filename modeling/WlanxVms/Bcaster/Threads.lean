import Mathlib.Data.List.TakeWhile
import WlanxVms.Lib.Machine
import WlanxVms.Bcaster.Client
import WlanxVms.Lisa.Server

/-!
# The two threads of the bcaster (`main.c`)

`stepListener` runs `repeat_listening_function` and `stepReceiver` runs `repeat_receiving_function`
with its `process_pkt` and `lisa_cast`, section by section: a step ends where another thread can
take `lp->lock` or `buffers.lock`, or read without a lock. The receiver keeps `lp->lock` from
`lisa_recv_part1` to the end of `lisa_recv_part2`, and `buffers.lock` from `client_for_fd` to the
end of its call. `lisa_cast` and the receive are those of a server (`Served.server`).
-/

namespace WlanxVms
namespace Bcaster

/-- `struct buffers_s` -/
structure Buffers where
  numClients : Nat
  client : Mem ClientData

namespace Buffers

/-- The descriptors of the registered clients. -/
def table (b : Buffers) : List Int := (List.range b.numClients).map fun i => (b.client i).clientFd

/-- `client_for_fd`; `none` is its `-1`. -/
def clientForFd (b : Buffers) (clientFd : Int) : Option Nat :=
  (List.range b.numClients).find? fun i => (b.client i).clientFd = clientFd

/-- What the listener does under `buffers.lock`. -/
def register (b : Buffers) (fd : Int) : Buffers :=
  { numClients := b.numClients + 1, client := b.client.set b.numClients ((b.client b.numClients).register fd) }

def setClient (b : Buffers) (clnum : Nat) (c : ClientData) : Buffers := { b with client := b.client.set clnum c }

end Buffers

/-! ### `match_end` -/

/-- `STOP_MSG` with its terminator -/
def stopMsg : List UInt8 := [42, 42, 42, 83, 84, 79, 80, 42, 42, 42, 78, 79, 87, 42, 42, 42, 0]

def strnlen (s : List UInt8) (n : Nat) : Nat := ((s.take n).takeWhile (· ≠ 0)).length

/-- `strncmp(s, t, n) == 0` -/
def strncmpEq : Nat → List UInt8 → List UInt8 → Bool
  | 0, _, _ => true
  | n + 1, a :: s, b :: t => a = b ∧ (a = 0 ∨ strncmpEq n s t)
  | _ + 1, _, _ => false

def matchEnd (s : List UInt8) : Bool :=
  if strnlen s stopMsg.length ≠ stopMsg.length then false else strncmpEq stopMsg.length s stopMsg

theorem mem_take_of_strncmpEq {n : Nat} {s t : List UInt8} (h : strncmpEq n s t = true) (ht : 0 ∈ t.take n) :
    0 ∈ s.take n := by
  induction n generalizing s t with
  | zero => cases ht
  | succ n ih =>
    cases s with
    | nil => cases h
    | cons a s =>
      cases t with
      | nil => simp [strncmpEq] at h
      | cons b t =>
        rw [strncmpEq, decide_eq_true_eq] at h
        obtain ⟨rfl, h⟩ := h
        rw [List.take_succ_cons, List.mem_cons] at ht ⊢
        rcases h with rfl | h
        · exact .inl rfl
        · exact ht.imp_right (ih h)

/-- `sizeof(STOP_MSG)` counts the terminator, so a string that `strnlen` finds to be that long does
not contain it, and one that `strncmp` finds equal does: no packet is the stop message. -/
theorem matchEnd_eq_false (s : List UInt8) : matchEnd s = false := by
  unfold matchEnd
  split
  · rfl
  · next hlen =>
    rw [← Bool.not_eq_true]
    intro heq
    have hlen : ((s.take stopMsg.length).takeWhile (· ≠ 0)).length = stopMsg.length := Decidable.not_not.1 hlen
    have hall : (s.take stopMsg.length).takeWhile (· ≠ 0) = s.take stopMsg.length := by
      refine (List.takeWhile_prefix _).eq_of_length_le ?_
      rw [hlen, List.length_take]
      exact Nat.min_le_left ..
    have hmem := mem_take_of_strncmpEq heq (show 0 ∈ stopMsg.take stopMsg.length by decide)
    exact of_decide_eq_true (List.takeWhile_eq_self_iff.1 hall 0 hmem) rfl

/-! ### The states of the threads -/

/-- Where `repeat_listening_function` is, with its local `num_clients`. -/
inductive ListenerPc where
  | idle
  | counted (numClients : Int)
  | selecting (numClients : Int)
  | accepted (numClients : Int)
  | registering
deriving DecidableEq

/-- One call of `lisa_cast` for a packet of the client `sender`: the clients registered when it
began, and the `lisa_send`s that it made, each with its socket and the bytes the socket took. -/
structure Cast where
  sender : Int
  pkt : Pkt
  registered : List Int
  sends : List (Int × List UInt8)
deriving DecidableEq

/-- The locals during `lisa_cast`. -/
structure Casting where
  clnum : Nat
  lastClient : Int
  i : Nat
  cast : Cast

def Casting.log (k : Casting) (fd : Int) (took : List UInt8) : Casting :=
  { k with cast := { k.cast with sends := k.cast.sends ++ [(fd, took)] } }

/-- Where `repeat_receiving_function` is, with its locals. -/
inductive ReceiverPc where
  | idle
  | part1
  | selecting (fds : List Int) (thisFd : Int)
  /-- after `lisa_recv_part1`, which has the lock if it did a `select` -/
  | picked (clfd : Int) (locked : Bool)
  | found (clfd : Int) (clnum : Nat) (locked : Bool)
  /-- `CLIENT` is an entry outside the table -/
  | outside
  | loop (clfd : Int) (clnum : Nat)
  | casting (clfd : Int) (clnum : Nat)
  | target (k : Casting)
  | sending (k : Casting) (c : SendCall)
  | sent (k : Casting)

/-- The packets that `process_pkt` counted and whose `lisa_cast` has not returned. -/
def ReceiverPc.inHand : ReceiverPc → Nat
  | .casting .. | .target _ | .sending .. | .sent _ => 1
  | _ => 0

/-- `openFds` are the descriptors that `accept` returned and that are not closed, `casts` the calls
of `lisa_cast` that returned. -/
structure Sys where
  lp : Lisa
  buffers : Buffers
  listener : ListenerPc
  receiver : ReceiverPc
  packetsReceived : Nat
  openFds : List Int
  casts : List Cast

inductive ListenerAct where
  | readCount
  | acceptPre (o : ListenOutcome)
  | acceptPost (o : AcceptOutcome)
  | compareCount
  | register

inductive ReceiverAct where
  | readCount
  | part1Pre
  | part1Post (ready : Option (List Int))
  | clientForFd
  | part2 (rc : Int) (bs : List UInt8)
  | loop
  | castStart
  | sendPre
  | send (outs : List SendOutcome)
  | castNext

inductive Act where
  | listener (a : ListenerAct)
  | receiver (a : ReceiverAct)

/-- `l_server`, a static variable -/
def lServer : Lisa :=
  { fd := 0, clientFd := 0, clientFds := Mem.fill 0, thisFd := 0, numClients := 0, state := .uninitialized,
    clientState := .uninitialized, type := .unset, clsvr := .unknown, vsock := false }

/-- The lisa after `init_listener` -/
def initListener : Lisa := lServer.lisaOpen.lisaSetToVsock

namespace Sys

def init (lp : Lisa) : Sys :=
  { lp, buffers := ⟨0, Mem.fill ⟨0, 0, 0, Mem.fill 0, 0⟩⟩, listener := .idle, receiver := .idle,
    packetsReceived := 0, openFds := [], casts := [] }

/-- The receiver has `lp->lock`. -/
def lisaLocked (s : Sys) : Bool :=
  match s.receiver with
  | .picked _ locked => locked
  | .found _ _ locked => locked
  | _ => false

/-- The receiver has `buffers.lock`. -/
def buffersLocked (s : Sys) : Bool :=
  match s.receiver with
  | .idle | .part1 | .selecting .. | .picked .. => false
  | _ => true

/-! ### `repeat_listening_function` -/

def listenerAcceptPre (s : Sys) (o : ListenOutcome) : Option Sys :=
  match s.listener with
  | .counted n =>
    if s.lisaLocked then none
    else some { s with lp := (s.lp.acceptPre o).1,
                       listener := if (s.lp.acceptPre o).2 then .selecting n else .accepted n }
  | _ => none

/-- The descriptors open after an `accept`. -/
def opened (o : AcceptOutcome) (openFds : List Int) : List Int :=
  match o with
  | .accepts rc => if 0 ≤ rc then rc :: openFds else openFds
  | _ => openFds

/-- `accept` does not return a descriptor that is open. -/
def fresh (o : AcceptOutcome) (openFds : List Int) : Bool :=
  match o with
  | .accepts rc => rc ∉ openFds
  | _ => true

def listenerAcceptPost (s : Sys) (o : AcceptOutcome) : Option Sys :=
  match s.listener with
  | .selecting n =>
    if s.lisaLocked ∨ ¬fresh o s.openFds then none
    else some { s with lp := (s.lp.acceptPost o).1, openFds := opened o s.openFds, listener := .accepted n }
  | _ => none

def compareCount (s : Sys) : Option Sys :=
  match s.listener with
  | .accepted n => some { s with listener := if n < s.lp.numClients then .registering else .idle }
  | _ => none

def stepListener (s : Sys) : ListenerAct → Option Sys
  | .readCount => if s.listener = .idle then some { s with listener := .counted s.lp.numClients } else none
  | .acceptPre o => s.listenerAcceptPre o
  | .acceptPost o => s.listenerAcceptPost o
  | .compareCount => s.compareCount
  | .register =>
    if s.listener = .registering ∧ s.buffersLocked = false then
      some { s with buffers := s.buffers.register s.lp.clientFd, listener := .idle }
    else none

/-! ### `repeat_receiving_function` -/

/-- `lisa_close_client`, which closes `lp->client_fd` unless it returns at once. -/
def closeClient (s : Sys) : Sys :=
  { s with lp := s.lp.lisaCloseClient,
           openFds := if s.lp.state.code < 0 ∨ s.lp.clientState.code < LisaState.connected.code then s.openFds
                      else s.openFds.erase s.lp.clientFd }

def readCount (s : Sys) : Option Sys :=
  match s.receiver with
  | .idle => some { s with receiver := if s.buffers.numClients = 0 then .idle else .part1 }
  | _ => none

def part1Pre (s : Sys) : Option Sys :=
  match s.receiver with
  | .part1 =>
    match s.lp.recvPart1Pre with
    | .returns rc => some { s with receiver := if rc < 0 then .idle else .picked rc false }
    | .selects fds thisFd => some { s with receiver := .selecting fds thisFd }
  | _ => none

/-- `select` answers with some of the descriptors that it was asked about. -/
def part1Post (s : Sys) (ready : Option (List Int)) : Option Sys :=
  match s.receiver with
  | .selecting fds thisFd =>
    if ready.all (fun r => r ≠ [] ∧ ∀ fd ∈ r, fd ∈ fds) then
      some { s with lp := (s.lp.recvPart1Post thisFd ready).1,
                    receiver := if (s.lp.recvPart1Post thisFd ready).2 < 0 then .idle
                                else .picked (s.lp.recvPart1Post thisFd ready).2 true }
    else none
  | _ => none

def clientForFd (s : Sys) : Option Sys :=
  match s.receiver with
  | .picked clfd locked =>
    match s.buffers.clientForFd clfd with
    | some clnum => some { s with receiver := .found clfd clnum locked }
    | none => some { s with receiver := .outside }
  | _ => none

/-- `recv` returns `-1`, or how many bytes it stored; it is called for a descriptor other than `0`. -/
def part2 (s : Sys) (rc : Int) (bs : List UInt8) : Option Sys :=
  match s.receiver with
  | .found clfd clnum _ =>
    if (rc = -1 ∧ bs = []) ∨ (rc = bs.length ∧ bs.length ≤ (s.buffers.client clnum).bufferRemaining ∧ s.lp.thisFd ≠ 0) then
      some { s with lp := (s.lp.recvPart2 rc).1,
                    buffers := s.buffers.setClient clnum
                      ((s.buffers.client clnum).received (s.lp.recvPart2 rc).2 bs),
                    receiver := .loop clfd clnum }
    else none
  | _ => none

/-- What follows `process_pkt`. -/
def afterPkt (s : Sys) (clfd : Int) (clnum : Nat) : Sys :=
  { s with buffers := s.buffers.setClient clnum (s.buffers.client clnum).consume, receiver := .loop clfd clnum }

/-- `process_pkt` up to the call of `lisa_cast` -/
def processPkt (s : Sys) (clfd : Int) (clnum : Nat) : Sys :=
  let c := s.buffers.client clnum
  let s := { s with packetsReceived := s.packetsReceived + 1 }
  if matchEnd (c.buffer.read c.nextPkt stopMsg.length) then s.closeClient.afterPkt clfd clnum
  else { s with receiver := .casting clfd clnum }

/-- One round of the `while`, or what follows the loop. -/
def loop (s : Sys) : Option Sys :=
  match s.receiver with
  | .loop clfd clnum =>
    let c := s.buffers.client clnum
    if c.loopCond then
      let s := { s with buffers := s.buffers.setClient clnum c.readExpected }
      if c.readExpected.pktReady then some (s.processPkt clfd clnum) else some s
    else some { s with buffers := s.buffers.setClient clnum c.relocate, receiver := .idle }
  | _ => none

/-- The loop of `lisa_cast` from `i` on: it sets `l->client_fd` and unlocks for the next `lisa_send`,
or it ends. -/
def castSeek (s : Sys) (k : Casting) : Sys :=
  match s.lp.castFind k.lastClient k.i with
  | some j => { s with lp := { s.lp with clientFd := s.lp.clientFds j }, receiver := .target { k with i := j } }
  | none => { s with casts := s.casts ++ [k.cast] }.afterPkt k.cast.sender k.clnum

def castStart (s : Sys) : Option Sys :=
  match s.receiver with
  | .casting clfd clnum => some (s.castSeek
      { clnum, lastClient := s.lp.clientFd, i := 0,
        cast := { sender := clfd, pkt := (s.buffers.client clnum).pkt, registered := s.lp.table, sends := [] } })
  | _ => none

def sendPre (s : Sys) : Option Sys :=
  match s.receiver with
  | .target k =>
    match s.lp.sendPre with
    | none => some { s with receiver := .sent (k.log s.lp.clientFd []) }
    | some c => some { s with receiver := .sending k c }
  | _ => none

def send (s : Sys) (outs : List SendOutcome) : Option Sys :=
  match s.receiver with
  | .sending k c => (Lisa.sendBody c k.cast.pkt.bytes outs).map fun r =>
      { s with lp := s.lp.sendPost r.thisState, receiver := .sent (k.log c.thisSocket r.took) }
  | _ => none

def castNext (s : Sys) : Option Sys :=
  match s.receiver with
  | .sent k => some (s.castSeek { k with i := k.i + 1 })
  | _ => none

def stepReceiver (s : Sys) : ReceiverAct → Option Sys
  | .readCount => s.readCount
  | .part1Pre => s.part1Pre
  | .part1Post ready => s.part1Post ready
  | .clientForFd => s.clientForFd
  | .part2 rc bs => s.part2 rc bs
  | .loop => s.loop
  | .castStart => s.castStart
  | .sendPre => s.sendPre
  | .send outs => s.send outs
  | .castNext => s.castNext

def step (s : Sys) : Act → Option Sys
  | .listener a => s.stepListener a
  | .receiver a => s.stepReceiver a

/-! ### What a step does -/

variable {s t : Sys} {clfd : Int} {clnum : Nat} {k : Casting}

/-- `lisa_close_client` is never called. -/
theorem processPkt_eq (s : Sys) (clfd : Int) (clnum : Nat) :
    s.processPkt clfd clnum =
      { s with packetsReceived := s.packetsReceived + 1, receiver := .casting clfd clnum } := by
  simp [processPkt, matchEnd_eq_false]

theorem acceptPre_cases {o : ListenOutcome} (h : s.listenerAcceptPre o = some t) :
    ∃ n, s.listener = .counted n ∧ s.lisaLocked = false ∧
      t = { s with lp := (s.lp.acceptPre o).1,
                   listener := if (s.lp.acceptPre o).2 then .selecting n else .accepted n } := by
  unfold listenerAcceptPre at h
  split at h
  · next n hn =>
    obtain ⟨hl, h⟩ := Option.ite_none_left_eq_some.1 h
    exact ⟨n, hn, Bool.not_eq_true _ ▸ hl, (Option.some.inj h).symm⟩
  · cases h

theorem acceptPost_cases {o : AcceptOutcome} (h : s.listenerAcceptPost o = some t) :
    ∃ n, s.listener = .selecting n ∧ s.lisaLocked = false ∧ fresh o s.openFds = true ∧
      t = { s with lp := (s.lp.acceptPost o).1, openFds := opened o s.openFds, listener := .accepted n } := by
  unfold listenerAcceptPost at h
  split at h
  · next n hn =>
    obtain ⟨hl, h⟩ := Option.ite_none_left_eq_some.1 h
    simp only [not_or, Bool.not_eq_true, Bool.not_eq_false] at hl
    exact ⟨n, hn, hl.1, hl.2, (Option.some.inj h).symm⟩
  · cases h

theorem compareCount_cases (h : s.compareCount = some t) :
    ∃ n, s.listener = .accepted n ∧
      t = { s with listener := if n < s.lp.numClients then .registering else .idle } := by
  unfold compareCount at h
  split at h
  · next n hn => exact ⟨n, hn, (Option.some.inj h).symm⟩
  · cases h

theorem readCount_cases (h : s.readCount = some t) :
    s.receiver = .idle ∧ t = { s with receiver := if s.buffers.numClients = 0 then .idle else .part1 } := by
  unfold readCount at h
  split at h
  · next hr => exact ⟨hr, (Option.some.inj h).symm⟩
  · cases h

theorem part1Pre_cases (h : s.part1Pre = some t) :
    s.receiver = .part1 ∧
      ((∃ rc, s.lp.recvPart1Pre = .returns rc ∧
          t = { s with receiver := if rc < 0 then .idle else .picked rc false }) ∨
        ∃ fds thisFd, s.lp.recvPart1Pre = .selects fds thisFd ∧ t = { s with receiver := .selecting fds thisFd }) := by
  unfold part1Pre at h
  split at h
  · next hr =>
    refine ⟨hr, ?_⟩
    split at h
    · next rc hrc => exact .inl ⟨rc, hrc, (Option.some.inj h).symm⟩
    · next fds thisFd hsel => exact .inr ⟨fds, thisFd, hsel, (Option.some.inj h).symm⟩
  · cases h

theorem part1Post_cases {ready : Option (List Int)} (h : s.part1Post ready = some t) :
    ∃ fds thisFd, s.receiver = .selecting fds thisFd ∧ (∀ r ∈ ready, r ≠ [] ∧ ∀ fd ∈ r, fd ∈ fds) ∧
      t = { s with lp := (s.lp.recvPart1Post thisFd ready).1,
                   receiver := if (s.lp.recvPart1Post thisFd ready).2 < 0 then .idle
                               else .picked (s.lp.recvPart1Post thisFd ready).2 true } := by
  unfold part1Post at h
  split at h
  · next fds thisFd hr =>
    obtain ⟨hready, h⟩ := Option.ite_none_right_eq_some.1 h
    refine ⟨fds, thisFd, hr, ?_, (Option.some.inj h).symm⟩
    simpa [Option.all_eq_true] using hready
  · cases h

theorem clientForFd_cases (h : s.clientForFd = some t) :
    ∃ clfd locked, s.receiver = .picked clfd locked ∧
      ((∃ clnum, s.buffers.clientForFd clfd = some clnum ∧ t = { s with receiver := .found clfd clnum locked }) ∨
        s.buffers.clientForFd clfd = none ∧ t = { s with receiver := .outside }) := by
  unfold clientForFd at h
  split at h
  · next clfd locked hr =>
    refine ⟨clfd, locked, hr, ?_⟩
    split at h
    · next clnum hc => exact .inl ⟨clnum, hc, (Option.some.inj h).symm⟩
    · next hc => exact .inr ⟨hc, (Option.some.inj h).symm⟩
  · cases h

theorem part2_cases {rc : Int} {bs : List UInt8} (h : s.part2 rc bs = some t) :
    ∃ clfd clnum locked, s.receiver = .found clfd clnum locked ∧
      ((rc = -1 ∧ bs = []) ∨
        rc = bs.length ∧ bs.length ≤ (s.buffers.client clnum).bufferRemaining ∧ s.lp.thisFd ≠ 0) ∧
      t = { s with lp := (s.lp.recvPart2 rc).1,
                   buffers := s.buffers.setClient clnum
                     ((s.buffers.client clnum).received (s.lp.recvPart2 rc).2 bs),
                   receiver := .loop clfd clnum } := by
  unfold part2 at h
  split at h
  · next clfd clnum locked hr =>
    obtain ⟨hrc, h⟩ := Option.ite_none_right_eq_some.1 h
    exact ⟨clfd, clnum, locked, hr, hrc, (Option.some.inj h).symm⟩
  · cases h

theorem loop_cases (h : s.loop = some t) :
    ∃ clfd clnum, s.receiver = .loop clfd clnum ∧
      (((s.buffers.client clnum).loopCond = true ∧ (s.buffers.client clnum).readExpected.pktReady = true ∧
          t = { s with buffers := s.buffers.setClient clnum (s.buffers.client clnum).readExpected,
                       packetsReceived := s.packetsReceived + 1, receiver := .casting clfd clnum }) ∨
        ((s.buffers.client clnum).loopCond = true ∧ (s.buffers.client clnum).readExpected.pktReady = false ∧
          t = { s with buffers := s.buffers.setClient clnum (s.buffers.client clnum).readExpected }) ∨
        (s.buffers.client clnum).loopCond = false ∧
          t = { s with buffers := s.buffers.setClient clnum (s.buffers.client clnum).relocate,
                       receiver := .idle }) := by
  unfold loop at h
  split at h
  · next clfd clnum hr =>
    refine ⟨clfd, clnum, hr, ?_⟩
    cases hc : (s.buffers.client clnum).loopCond with
    | true =>
      cases hp : (s.buffers.client clnum).readExpected.pktReady with
      | true =>
        simp only [hc, hp, if_true, processPkt_eq] at h
        exact .inl ⟨rfl, rfl, (Option.some.inj h).symm⟩
      | false =>
        simp only [hc, hp, if_true, Bool.false_eq_true, if_false] at h
        exact .inr (.inl ⟨rfl, rfl, (Option.some.inj h).symm⟩)
    | false =>
      simp only [hc, Bool.false_eq_true, if_false] at h
      exact .inr (.inr ⟨rfl, (Option.some.inj h).symm⟩)
  · cases h

theorem castSeek_cases (s : Sys) (k : Casting) :
    (∃ j, s.lp.castFind k.lastClient k.i = some j ∧
      s.castSeek k = { s with lp := { s.lp with clientFd := s.lp.clientFds j }, receiver := .target { k with i := j } }) ∨
    s.lp.castFind k.lastClient k.i = none ∧
      s.castSeek k = { s with casts := s.casts ++ [k.cast],
                              buffers := s.buffers.setClient k.clnum (s.buffers.client k.clnum).consume,
                              receiver := .loop k.cast.sender k.clnum } := by
  unfold castSeek
  split
  · next j hj => exact .inl ⟨j, hj, rfl⟩
  · next hj => exact .inr ⟨hj, rfl⟩

theorem castStart_cases (h : s.castStart = some t) :
    ∃ clfd clnum, s.receiver = .casting clfd clnum ∧ t = s.castSeek
      { clnum, lastClient := s.lp.clientFd, i := 0,
        cast := { sender := clfd, pkt := (s.buffers.client clnum).pkt, registered := s.lp.table, sends := [] } } := by
  unfold castStart at h
  split at h
  · next clfd clnum hr => exact ⟨clfd, clnum, hr, (Option.some.inj h).symm⟩
  · cases h

theorem sendPre_cases (h : s.sendPre = some t) :
    ∃ k, s.receiver = .target k ∧
      (s.lp.sendPre = none ∧ t = { s with receiver := .sent (k.log s.lp.clientFd []) } ∨
        ∃ c, s.lp.sendPre = some c ∧ t = { s with receiver := .sending k c }) := by
  unfold sendPre at h
  split at h
  · next k hr =>
    refine ⟨k, hr, ?_⟩
    split at h
    · next hp => exact .inl ⟨hp, (Option.some.inj h).symm⟩
    · next c hp => exact .inr ⟨c, hp, (Option.some.inj h).symm⟩
  · cases h

theorem send_cases {outs : List SendOutcome} (h : s.send outs = some t) :
    ∃ k c r, s.receiver = .sending k c ∧ Lisa.sendBody c k.cast.pkt.bytes outs = some r ∧
      t = { s with lp := s.lp.sendPost r.thisState, receiver := .sent (k.log c.thisSocket r.took) } := by
  unfold send at h
  split at h
  · next k c hr =>
    obtain ⟨r, hbody, h⟩ := Option.map_eq_some_iff.1 h
    exact ⟨k, c, r, hr, hbody, h.symm⟩
  · cases h

theorem castNext_cases (h : s.castNext = some t) :
    ∃ k, s.receiver = .sent k ∧ t = s.castSeek { k with i := k.i + 1 } := by
  unfold castNext at h
  split at h
  · next k hr => exact ⟨k, hr, (Option.some.inj h).symm⟩
  · cases h

/-! ### What the threads leave alone -/

/-- A step of the listener leaves the receiver where it is. -/
structure ListenerFrame (s t : Sys) : Prop where
  receiver : t.receiver = s.receiver
  packetsReceived : t.packetsReceived = s.packetsReceived
  casts : t.casts = s.casts

theorem listener_frame {a : ListenerAct} (h : s.stepListener a = some t) : ListenerFrame s t := by
  cases a with
  | readCount =>
    obtain ⟨-, h⟩ := Option.ite_none_right_eq_some.1 h
    cases h; exact ⟨rfl, rfl, rfl⟩
  | acceptPre o => obtain ⟨n, -, -, rfl⟩ := acceptPre_cases h; exact ⟨rfl, rfl, rfl⟩
  | acceptPost o => obtain ⟨n, -, -, -, rfl⟩ := acceptPost_cases h; exact ⟨rfl, rfl, rfl⟩
  | compareCount => obtain ⟨n, -, rfl⟩ := compareCount_cases h; exact ⟨rfl, rfl, rfl⟩
  | register =>
    obtain ⟨-, h⟩ := Option.ite_none_right_eq_some.1 h
    cases h; exact ⟨rfl, rfl, rfl⟩

/-- A step of the receiver leaves both tables and the listener alone. -/
structure ReceiverFrame (s t : Sys) : Prop where
  lp : Lisa.SameTable s.lp t.lp
  numClients : t.buffers.numClients = s.buffers.numClients
  clientFd : ∀ i, (t.buffers.client i).clientFd = (s.buffers.client i).clientFd
  listener : t.listener = s.listener
  openFds : t.openFds = s.openFds

theorem ReceiverFrame.table (h : ReceiverFrame s t) : t.buffers.table = s.buffers.table := by
  rw [Buffers.table, Buffers.table, h.numClients]
  exact List.map_congr_left fun i _ => h.clientFd i

theorem clientFd_setClient (b : Buffers) {c : ClientData} (hc : c.clientFd = (b.client clnum).clientFd) (i : Nat) :
    ((b.setClient clnum c).client i).clientFd = (b.client i).clientFd := by
  by_cases hi : i = clnum
  · subst hi
    simpa [Buffers.setClient] using hc
  · show (b.client.set clnum c i).clientFd = _
    rw [Mem.set_of_ne _ _ hi]

theorem ReceiverFrame.of_setClient {c : ClientData} (hb : t.buffers = s.buffers.setClient clnum c)
    (hc : c.clientFd = (s.buffers.client clnum).clientFd) (hlp : Lisa.SameTable s.lp t.lp) (hl : t.listener = s.listener)
    (ho : t.openFds = s.openFds) : ReceiverFrame s t :=
  ⟨hlp, by rw [hb]; rfl, fun i => by rw [hb]; exact clientFd_setClient _ hc i, hl, ho⟩

theorem ReceiverFrame.castSeek (s : Sys) (k : Casting) : ReceiverFrame s (s.castSeek k) := by
  rcases castSeek_cases s k with ⟨j, -, h⟩ | ⟨-, h⟩
  · rw [h]; exact ⟨⟨rfl, rfl, rfl, rfl, rfl⟩, rfl, fun _ => rfl, rfl, rfl⟩
  · rw [h]; exact .of_setClient rfl rfl (.refl _) rfl rfl

theorem receiver_frame {a : ReceiverAct} (h : s.stepReceiver a = some t) : ReceiverFrame s t := by
  cases a with
  | readCount =>
    obtain ⟨-, rfl⟩ := readCount_cases h
    exact ⟨.refl _, rfl, fun _ => rfl, rfl, rfl⟩
  | part1Pre =>
    obtain ⟨-, ⟨rc, -, rfl⟩ | ⟨fds, thisFd, -, rfl⟩⟩ := part1Pre_cases h
    · exact ⟨.refl _, rfl, fun _ => rfl, rfl, rfl⟩
    · exact ⟨.refl _, rfl, fun _ => rfl, rfl, rfl⟩
  | part1Post ready =>
    obtain ⟨fds, thisFd, -, -, rfl⟩ := part1Post_cases h
    exact ⟨.recvPart1Post .., rfl, fun _ => rfl, rfl, rfl⟩
  | clientForFd =>
    obtain ⟨clfd, locked, -, ⟨clnum, -, rfl⟩ | ⟨-, rfl⟩⟩ := clientForFd_cases h
    · exact ⟨.refl _, rfl, fun _ => rfl, rfl, rfl⟩
    · exact ⟨.refl _, rfl, fun _ => rfl, rfl, rfl⟩
  | part2 rc bs =>
    obtain ⟨clfd, clnum, locked, -, -, rfl⟩ := part2_cases h
    exact .of_setClient rfl rfl (.recvPart2 ..) rfl rfl
  | loop =>
    obtain ⟨clfd, clnum, -, ⟨-, -, rfl⟩ | ⟨-, -, rfl⟩ | ⟨-, rfl⟩⟩ := loop_cases h
    · exact .of_setClient rfl ClientData.readExpected_clientFd (.refl _) rfl rfl
    · exact .of_setClient rfl ClientData.readExpected_clientFd (.refl _) rfl rfl
    · exact .of_setClient rfl rfl (.refl _) rfl rfl
  | castStart => obtain ⟨clfd, clnum, -, rfl⟩ := castStart_cases h; exact .castSeek ..
  | sendPre =>
    obtain ⟨k, -, ⟨-, rfl⟩ | ⟨c, -, rfl⟩⟩ := sendPre_cases h
    · exact ⟨.refl _, rfl, fun _ => rfl, rfl, rfl⟩
    · exact ⟨.refl _, rfl, fun _ => rfl, rfl, rfl⟩
  | send outs =>
    obtain ⟨k, c, r, -, -, rfl⟩ := send_cases h
    exact ⟨.sendPost .., rfl, fun _ => rfl, rfl, rfl⟩
  | castNext => obtain ⟨k, -, rfl⟩ := castNext_cases h; exact .castSeek ..

/-- A step before the `recv`. -/
structure BeforeRecv (s t : Sys) : Prop where
  inHand : s.receiver.inHand = 0
  inHand' : t.receiver.inHand = 0
  busy : t.receiver ≠ .idle → s.receiver ≠ .idle ∨ s.buffers.numClients ≠ 0
  state : t.lp.state = s.lp.state
  buffers : t.buffers = s.buffers
  casts : t.casts = s.casts
  packetsReceived : t.packetsReceived = s.packetsReceived

theorem BeforeRecv.readCount (hs : s.readCount = some t) : BeforeRecv s t := by
  obtain ⟨hr, rfl⟩ := readCount_cases hs
  by_cases hz : s.buffers.numClients = 0
  · exact ⟨by rw [hr]; rfl, by rw [if_pos hz]; rfl, fun hne => absurd (if_pos hz) hne, rfl, rfl, rfl, rfl⟩
  · exact ⟨by rw [hr]; rfl, by rw [if_neg hz]; rfl, fun _ => .inr hz, rfl, rfl, rfl, rfl⟩

theorem BeforeRecv.part1Pre (hs : s.part1Pre = some t) : BeforeRecv s t := by
  obtain ⟨hr, ⟨rc, -, rfl⟩ | ⟨fds, thisFd, -, rfl⟩⟩ := part1Pre_cases hs
  · exact ⟨by rw [hr]; rfl, by by_cases hneg : rc < 0 <;> simp [hneg, ReceiverPc.inHand],
      fun _ => .inl (by simp [hr]), rfl, rfl, rfl, rfl⟩
  · exact ⟨by rw [hr]; rfl, rfl, fun _ => .inl (by simp [hr]), rfl, rfl, rfl, rfl⟩

theorem BeforeRecv.part1Post {ready : Option (List Int)} (hs : s.part1Post ready = some t) : BeforeRecv s t := by
  obtain ⟨fds, thisFd, hr, -, rfl⟩ := part1Post_cases hs
  exact ⟨by rw [hr]; rfl, by by_cases hneg : (s.lp.recvPart1Post thisFd ready).2 < 0 <;> simp [hneg, ReceiverPc.inHand],
    fun _ => .inl (by simp [hr]), Lisa.state_recvPart1Post .., rfl, rfl, rfl⟩

theorem BeforeRecv.clientForFd (hs : s.clientForFd = some t) : BeforeRecv s t := by
  obtain ⟨clfd, locked, hr, ⟨clnum, -, rfl⟩ | ⟨-, rfl⟩⟩ := clientForFd_cases hs
  · exact ⟨by rw [hr]; rfl, rfl, fun _ => .inl (by simp [hr]), rfl, rfl, rfl, rfl⟩
  · exact ⟨by rw [hr]; rfl, rfl, fun _ => .inl (by simp [hr]), rfl, rfl, rfl, rfl⟩

theorem inHand_of_unlocked (h : s.buffersLocked = false) : s.receiver.inHand = 0 := by
  unfold buffersLocked at h
  unfold ReceiverPc.inHand
  split at h <;> simp_all

end Sys
end Bcaster
end WlanxVms
