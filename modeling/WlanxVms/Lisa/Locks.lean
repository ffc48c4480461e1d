import WlanxVms.Lib.Lock
import WlanxVms.Lisa.Send

/-!
# The locks of the lisa functions (`lisa.c`)

The functions that use `l->lock`, as the one thread runs them that calls them: every `pthread_mutex_lock` and
`pthread_mutex_unlock` stands where it stands in the source, and each way out has its own. The answers of the
socket calls are arguments; when those of a loop are used up the run is not followed further (`unanswered`).
What a section does to the lisa is `acceptPost`, `sendRound`, `sendPost` and the like. Addresses and ports are
left out but for the checks on the text of an address; a null text is read by the checks, which ends the program
(`crash`).

`lisaRecv` is that of the cross_injector and `lisaRecvWithPart` that of the bcaster, the others are the same.
`β` is what the threads share besides the lisa.
-/

namespace WlanxVms

/-- `l->lock` and the `buffers.lock` of the bcaster -/
inductive LockName where
  | lisa | buffers
deriving DecidableEq

/-- The lisa, its field `blocking`, and the rest of what the threads share. -/
structure Shared (β : Type) where
  l : Lisa
  blocking : Bool
  rest : β

/-- What the calls of `lisa_connect` return; `inProgress` is `errno == EINPROGRESS`, and `select` the result of
the second `select`. -/
structure ConnectOutcome where
  setup : ListenOutcome
  inetPton : Int
  connect : Int
  inProgress : Bool
  select : Int

structure SendToOutcome where
  setup : ListenOutcome
  sendto : Int

/-- The result of a `select`, and the descriptors for which `FD_ISSET` is true then. -/
structure SelectOutcome where
  rc : Int
  ready : List Int

structure RecvFromOutcome where
  bind : Int
  select : Int
  recvfrom : Int

namespace Lisa.Locks

open Locked

abbrev Prog (β : Type) : Type → Type := Locked LockName (Shared β)

variable {β : Type}

def lisa : Prog β Lisa := do return (← view).l

def setLisa (f : Lisa → Lisa) : Prog β Unit := update fun s => { s with l := f s.l }

def setState (st : LisaState) : Prog β Unit := setLisa fun l => { l with state := st }

/-! ### `lisa_connect` -/

def isnumber : List UInt8 → Nat → Bool
  | [], _ => true
  | _, 0 => true
  | c :: s, max + 1 => if c = 0 then true else if c < 48 ∨ 57 < c then false else isnumber s max

/-- `lisa_connect` from the call of `connect` on. -/
def connectOpen (o : ConnectOutcome) : Prog β Unit := do
  if o.connect < 0 ∧ o.inProgress = false then
    setState .error
    unlock .lisa
  else
    unlock .lisa
    if o.select ≤ 0 then
      lock .lisa
      setState .error
      unlock .lisa
    else
      lock .lisa
      setState .connected
      unlock .lisa

/-- `lisa_connect` from the conversion of the address on. The two returns after `setState` do not unlock. -/
def connectTo (addr : Option (List UInt8)) (o : ConnectOutcome) : Prog β Unit := do
  if (← lisa).vsock then
    match addr with
    | none => stop .crash
    | some addr => if isnumber addr 10 = false then setState .error else connectOpen o
  else
    match addr with
    | none => connectOpen o
    | some _ => if o.inetPton ≤ 0 then setState .error else connectOpen o

def lisaConnect (addr : Option (List UInt8)) (o : ConnectOutcome) : Prog β Unit := do
  lock .lisa
  if (← lisa).state.code < 0 then unlock .lisa
  else
    setLisa fun l => { l with clsvr := .client }
    if (← lisa).state.code < LisaState.created.code then
      setLisa fun l => l.lisaSetupTcp o.setup
      if (← lisa).state.code < 0 then unlock .lisa else connectTo addr o
    else connectTo addr o

/-! ### `lisa_accept` -/

/-- `lisa_accept` from the `select` on. -/
def acceptSelect (out : AcceptOutcome) : Prog β Int := do
  unlock .lisa
  lock .lisa
  match out with
  | .selectFails =>
    setLisa fun l => (l.acceptPost .selectFails).1
    unlock .lisa
    return 0
  | .notSet =>
    setLisa fun l => (l.acceptPost .notSet).1
    unlock .lisa
    return 0
  | out =>
    let l ← lisa
    setLisa fun l => (l.acceptPost out).1
    unlock .lisa
    return (l.acceptPost out).2

def lisaAccept (o : ListenOutcome) (out : AcceptOutcome) : Prog β Int := do
  lock .lisa
  if (← lisa).state.code < 0 then
    unlock .lisa
    return 0
  else if (← lisa).state.code < LisaState.listening.code then
    setLisa fun l => l.lisaListen o
    if (← lisa).state.code < 0 then
      unlock .lisa
      return 0
    else
      setState .listening
      acceptSelect out
  else acceptSelect out

/-! ### `lisa_send` -/

/-- The loop for a TCP socket. -/
def sendRounds (msg : List UInt8) (s : Sending) : List SendOutcome → Prog β Sending
  | [] => if s.bytesSent < msg.length ∧ s.thisState ≠ .error then stop .unanswered else return s
  | o :: os =>
    if s.bytesSent < msg.length ∧ s.thisState ≠ .error then
      match o with
      | .notReady => do
        lock .lisa
        unlock .lisa
        sendRounds msg { s with thisState := .timeout } os
      | .notSet => do
        lock .lisa
        unlock .lisa
        sendRounds msg { s with thisState := .error } os
      | .sends rc =>
        match Lisa.sendRound msg s (.sends rc) with
        | some s => sendRounds msg s os
        | none => stop .unanswered
    else return s

/-- The `sendto` for a socket that is not TCP. -/
def sendDatagram : List SendOutcome → Prog β Int
  | .sends rc :: _ => do
    lock .lisa
    unlock .lisa
    return rc
  | _ => stop .unanswered

def sendFinish (rc : Int) (thisState : LisaState) : Prog β Int := do
  lock .lisa
  setLisa fun l => l.sendPost (if rc < 0 then .error else thisState)
  unlock .lisa
  return rc

def lisaSend (msg : List UInt8) (outs : List SendOutcome) : Prog β Int := do
  lock .lisa
  let l ← lisa
  if l.state.code < 0 then
    unlock .lisa
    return -1
  else if l.state.code < LisaState.connected.code then
    unlock .lisa
    return LisaState.error.code
  else
    let thisState := if l.state ≠ .accepted then l.state else l.clientState
    unlock .lisa
    if l.type = .tcp then
      let s ← sendRounds msg { bytesSent := 0, thisState, took := [] } outs
      sendFinish (asInt s.bytesSent) s.thisState
    else
      let rc ← sendDatagram outs
      sendFinish rc .sentData

/-! ### `lisa_cast` -/

/-- The loop of `lisa_cast` from `i` on, which begins and ends with the lock; one entry of `outs` for each round,
used when the round sends. -/
def castRounds (lastClient : Int) (msg : List UInt8) (i : Nat) : List (List SendOutcome) → Prog β Unit
  | [] => do if i < (← lisa).numClients then stop .unanswered else return ()
  | o :: outs => do
    let l ← lisa
    if i < l.numClients then
      if l.clientFds i ≠ lastClient then
        setLisa fun l => { l with clientFd := l.clientFds i }
        unlock .lisa
        let _ ← lisaSend msg o
        lock .lisa
        castRounds lastClient msg (i + 1) outs
      else castRounds lastClient msg (i + 1) outs
    else return ()

def lisaCast (msg : List UInt8) (outs : List (List SendOutcome)) : Prog β Int := do
  lock .lisa
  let l ← lisa
  if l.clsvr = .client then
    unlock .lisa
    let _ ← lisaSend msg (outs.headD [])
    return msg.length
  else
    castRounds l.clientFd msg 0 outs
    unlock .lisa
    return msg.length

/-! ### `lisa_send_to` -/

/-- `lisa_send_to` from the conversion of the address on. -/
def sendToAddr (addr : Option (List UInt8)) (o : SendToOutcome) : Prog β Int := do
  match addr with
  | none => stop .crash
  | some addr =>
    if (← lisa).vsock ∧ isnumber addr 10 = false then
      setState .error
      unlock .lisa
      return -1
    else
      setState .connected
      if o.sendto < 0 then
        setState .error
        unlock .lisa
        return o.sendto
      else
        unlock .lisa
        return o.sendto

def lisaSendTo (addr : Option (List UInt8)) (o : SendToOutcome) : Prog β Int := do
  lock .lisa
  if (← lisa).state.code < 0 then
    unlock .lisa
    return -1
  else if (← lisa).state.code < LisaState.created.code then
    setLisa fun l => l.lisaSetupUdp o.setup
    if (← lisa).state.code < 0 then
      unlock .lisa
      return -1
    else sendToAddr addr o
  else sendToAddr addr o

/-! ### `lisa_recv`, `lisa_recv_with_part` -/

/-- `this_fd` after the loop that selects, where it was `thisFd` before. -/
def lastSelected (l : Lisa) (thisFd : Int) : Int := if l.clsvr = .client then thisFd else l.table.getLastD thisFd

/-- The entry of `client_fds` that the loop after the `select` finds, or `0`. -/
def readyFd (l : Lisa) (ready : List Int) : Int := (l.table.find? fun fd => fd ∈ ready).getD 0

/-- The choice of the descriptor to receive from. -/
def pickFd (l : Lisa) (thisFd : Int) (ready : List Int) : Lisa × Int :=
  if l.clsvr = .client then (l, l.fd)
  else ({ l with clientFd := readyFd l ready }, if readyFd l ready = 0 then thisFd else readyFd l ready)

/-- What follows the receiving; `rc` is the result. -/
def recvFinish (thisState : LisaState) (rc : Int) : Prog β Int := do
  setLisa fun l => if l.clsvr = .client then { l with state := thisState } else { l with clientState := thisState }
  unlock .lisa
  return rc

/-- The receiving from `thisFd`; `recv` is what `recv` or `recvfrom` returns, if it is called. -/
def recvData (thisState : LisaState) (rc thisFd recv : Int) : Prog β Int := do
  if thisFd ≠ 0 then
    if (← lisa).type = .tcp then
      recvFinish (if recv < 0 then .error else if recv = 0 then .closed else .gotData) recv
    else recvFinish .gotData recv
  else recvFinish thisState rc

def lisaRecv (sel : SelectOutcome) (recv : Int) : Prog β Int := do
  lock .lisa
  let l ← lisa
  if l.state.code < 0 then
    unlock .lisa
    return -1
  else if l.state.code < LisaState.connected.code ∨ l.clsvr = .unknown then
    unlock .lisa
    return 0
  else
    unlock .lisa
    lock .lisa
    if sel.rc < 0 then recvFinish .error (-1)
    else if sel.rc = 0 then recvFinish .timeout 0
    else
      let picked := pickFd (← lisa) (lastSelected l l.fd) sel.ready
      setLisa fun _ => picked.1
      recvData l.state sel.rc picked.2 recv

/-- `lisa_recv_with_part` from the label `part2` on. -/
def recvStored (thisState : LisaState) (rc recv : Int) : Prog β Int := do
  recvData thisState rc (← lisa).thisFd recv

/-- `part` is `1`, `2` or `12`; the return of part 1 with a descriptor does not unlock. -/
def lisaRecvWithPart (part : Nat) (sel : SelectOutcome) (recv : Int) : Prog β Int := do
  if part = 2 then recvStored .error (-1) recv
  else
    lock .lisa
    let l ← lisa
    if l.state.code < 0 then
      unlock .lisa
      return -1
    else if l.state.code < LisaState.connected.code ∨ l.clsvr = .unknown then
      unlock .lisa
      return 0
    else
      unlock .lisa
      lock .lisa
      if sel.rc ≤ 0 then recvFinish .timeout (-1)
      else
        let picked := pickFd (← lisa) (lastSelected l 0) sel.ready
        setLisa fun _ => { picked.1 with thisFd := picked.2 }
        if part = 1 then return picked.2
        else recvStored l.state sel.rc recv

/-! ### `lisa_recv_from` -/

/-- `lisa_recv_from` from the `select` on. -/
def recvFromSelect (o : RecvFromOutcome) : Prog β Int := do
  unlock .lisa
  lock .lisa
  if o.select ≤ 0 then
    unlock .lisa
    return 0
  else if (← view).blocking ∧ o.recvfrom < 0 then
    setState .error
    unlock .lisa
    return o.recvfrom
  else
    setState .gotData
    unlock .lisa
    return o.recvfrom

def lisaRecvFrom (o : RecvFromOutcome) : Prog β Int := do
  lock .lisa
  let l ← lisa
  if l.state.code < 0 then
    unlock .lisa
    return -1
  else if l.state.code < LisaState.created.code then
    unlock .lisa
    return -1
  else if l.type ≠ .udp then
    unlock .lisa
    return -2
  else if l.state.code < LisaState.bound.code then
    if o.bind < 0 then
      setState .error
      unlock .lisa
      return o.bind
    else
      setState .bound
      recvFromSelect o
  else recvFromSelect o

/-- The text is not an address that `lisa_connect` takes. -/
def Refuses (vsock : Bool) (addr : Option (List UInt8)) (o : ConnectOutcome) : Prop :=
  if vsock then ∃ a, addr = some a ∧ isnumber a 10 = false else addr ≠ none ∧ o.inetPton ≤ 0

/-! ### Each function gives the lock back

`ks` are the locks that the caller has, which are not the lisa's. -/

section

@[simp] theorem lisaSetupTcp_vsock (l : Lisa) (o : ListenOutcome) : (l.lisaSetupTcp o).vsock = l.vsock := by
  unfold lisaSetupTcp lisaSetNonblocking
  split_ifs <;> rfl

theorem lisaSetupTcp_state_nonneg {l : Lisa} (hl : 0 ≤ l.state.code) (o : ListenOutcome) :
    0 ≤ (l.lisaSetupTcp o).state.code ↔ 0 ≤ o.socket ∧ 0 ≤ o.fcntl := by
  unfold lisaSetupTcp lisaSetNonblocking
  split_ifs <;> simp [LisaState.code] <;> omega

variable {E : Stop → Prop} {h : Holder LockName (Shared β)} {ks : List LockName}

@[simp] theorem wp_lisa {Q : Lisa → Holder LockName (Shared β) → Prop} : wp E lisa Q h ↔ Q h.shared.l h :=
  Iff.rfl

@[simp] theorem wp_setLisa {Q : Unit → Holder LockName (Shared β) → Prop} (f : Lisa → Lisa) :
    wp E (setLisa f) Q h ↔ Q () (h.map fun s => { s with l := f s.l }) := Iff.rfl

@[simp] theorem wp_setState {Q : Unit → Holder LockName (Shared β) → Prop} (st : LisaState) :
    wp E (setState st) Q h ↔ Q () (h.map fun s => { s with l := { s.l with state := st } }) := Iff.rfl

/-- Part 2 unlocks whether or not part 1 has locked. -/
theorem recvStored_unlocked {Q : Int → Holder LockName (Shared β) → Prop} (thisState : LisaState) (rc recv : Int)
    (hh : .lisa ∉ h.held) : wp E (recvStored thisState rc recv) Q h ↔ E .misuse := by
  simp [recvStored, recvData, recvFinish, hh]

theorem sendToAddr_keeps {addr : Option (List UInt8)} (hE : addr = none → E .crash) (o : SendToOutcome) :
    Keeps E (sendToAddr addr o : Prog β Int) (.lisa :: ks) fun _ => ks := by
  intro h hh
  cases addr with
  | none => exact hE rfl
  | some addr => simp [sendToAddr, hh]

variable (hk : .lisa ∉ ks)
include hk

theorem connectOpen_keeps (o : ConnectOutcome) : Keeps E (connectOpen o : Prog β Unit) (.lisa :: ks) fun _ => ks := by
  intro h hh
  simp [connectOpen, hh, hk]

theorem acceptSelect_keeps (out : AcceptOutcome) :
    Keeps E (acceptSelect out : Prog β Int) (.lisa :: ks) fun _ => ks := by
  intro h hh
  cases out <;> simp [acceptSelect, hh, hk]

theorem lisaAccept_keeps (o : ListenOutcome) (out : AcceptOutcome) :
    Keeps E (lisaAccept o out : Prog β Int) ks fun _ => ks := by
  intro h hh
  have hsel : ∀ h : Holder LockName (Shared β), h.held = .lisa :: ks →
      wp E (acceptSelect out) (fun _ h => h.held = ks) h := acceptSelect_keeps hk out
  simp [lisaAccept, hh, hk, hsel]

theorem sendRounds_keeps (hE : E .unanswered) (msg : List UInt8) (s : Sending) (outs : List SendOutcome) :
    Keeps E (sendRounds msg s outs : Prog β Sending) ks fun _ => ks := by
  induction outs generalizing s with
  | nil =>
    intro h hh
    simp [sendRounds, hh, hE]
  | cons o outs ih =>
    intro h hh
    have ih : ∀ (s : Sending) (h : Holder LockName (Shared β)), h.held = ks →
      wp E (sendRounds msg s outs) (fun _ h => h.held = ks) h := ih
    cases o with
    | notReady => simp [sendRounds, hh, hk, ih]
    | notSet => simp [sendRounds, hh, hk, ih]
    | sends rc =>
      cases hs : Lisa.sendRound msg s (.sends rc) with
      | none => simp [sendRounds, hs, hE, hh]
      | some s => simp [sendRounds, hs, ih, hh]

theorem sendDatagram_keeps (hE : E .unanswered) (outs : List SendOutcome) :
    Keeps E (sendDatagram outs : Prog β Int) ks fun _ => ks := by
  intro h hh
  unfold sendDatagram
  split
  · simp [hh, hk]
  · exact hE

theorem sendFinish_keeps (rc : Int) (thisState : LisaState) :
    Keeps E (sendFinish rc thisState : Prog β Int) ks fun _ => ks := by
  intro h hh
  simp [sendFinish, hh, hk]

theorem lisaSend_keeps (hE : E .unanswered) (msg : List UInt8) (outs : List SendOutcome) :
    Keeps E (lisaSend msg outs : Prog β Int) ks fun _ => ks := by
  intro h hh
  have htcp (s : Sending) (h : Holder LockName (Shared β)) (hh : h.held = ks) :
      wp E (sendRounds msg s outs) (fun s h =>
        wp E (sendFinish (asInt s.bytesSent) s.thisState) (fun _ h => h.held = ks) h) h :=
    (sendRounds_keeps hk hE msg s outs).wp hh fun s h hh => sendFinish_keeps hk _ _ h hh
  have hudp (h : Holder LockName (Shared β)) (hh : h.held = ks) :
      wp E (sendDatagram outs) (fun rc h => wp E (sendFinish rc .sentData) (fun _ h => h.held = ks) h) h :=
    (sendDatagram_keeps hk hE outs).wp hh fun rc h hh => sendFinish_keeps hk _ _ h hh
  simp [lisaSend, hh, hk, htcp, hudp]

theorem castRounds_keeps (hE : E .unanswered) (lastClient : Int) (msg : List UInt8) (i : Nat)
    (outs : List (List SendOutcome)) :
    Keeps E (castRounds lastClient msg i outs : Prog β Unit) (.lisa :: ks) fun _ => .lisa :: ks := by
  induction outs generalizing i with
  | nil =>
    intro h hh
    simp [castRounds, hh, hE]
  | cons o outs ih =>
    intro h hh
    simp only [castRounds, wp_bind, wp_lisa, wp_setLisa, wp_ite, wp_pure, wp_unlock]
    split
    · split
      · rw [if_pos (by simp [hh])]
        refine (lisaSend_keeps hk hE msg o).wp (by simp [hh]) fun _ h hh => ?_
        rw [wp_lock, hh, if_neg hk]
        exact ih (i + 1) _ (by simp [hh])
      · exact ih (i + 1) h hh
    · exact hh

theorem lisaCast_keeps (hE : E .unanswered) (msg : List UInt8) (outs : List (List SendOutcome)) :
    Keeps E (lisaCast msg outs : Prog β Int) ks fun _ => ks := by
  intro h hh
  simp only [lisaCast, wp_bind, wp_lock, wp_lisa, wp_ite, wp_pure, hh, hk, if_false]
  split
  · rw [wp_unlock, if_pos (by simp)]
    exact lisaSend_keeps hk hE msg _ _ (by simp [hh])
  · refine (castRounds_keeps hk hE _ msg 0 outs).wp (by simp [hh]) fun _ h hh => ?_
    simp [hh]

theorem lisaSendTo_keeps {addr : Option (List UInt8)} (hE : addr = none → E .crash) (o : SendToOutcome) :
    Keeps E (lisaSendTo addr o : Prog β Int) ks fun _ => ks := by
  intro h hh
  have haddr : ∀ h : Holder LockName (Shared β), h.held = .lisa :: ks →
      wp E (sendToAddr addr o) (fun _ h => h.held = ks) h := sendToAddr_keeps hE o
  simp [lisaSendTo, hh, hk, haddr]

theorem lisaRecv_keeps (sel : SelectOutcome) (recv : Int) :
    Keeps E (lisaRecv sel recv : Prog β Int) ks fun _ => ks := by
  intro h hh
  simp [lisaRecv, recvData, recvFinish, hh, hk]

theorem lisaRecvWithPart_keeps {part : Nat} (h1 : part ≠ 1) (h2 : part ≠ 2) (sel : SelectOutcome) (recv : Int) :
    Keeps E (lisaRecvWithPart part sel recv : Prog β Int) ks fun _ => ks := by
  intro h hh
  simp [lisaRecvWithPart, recvStored, recvData, recvFinish, hh, hk, h1, h2]

theorem recvFromSelect_keeps (o : RecvFromOutcome) :
    Keeps E (recvFromSelect o : Prog β Int) (.lisa :: ks) fun _ => ks := by
  intro h hh
  simp [recvFromSelect, hh, hk]

theorem lisaRecvFrom_keeps (o : RecvFromOutcome) : Keeps E (lisaRecvFrom o : Prog β Int) ks fun _ => ks := by
  intro h hh
  have hsel : ∀ h : Holder LockName (Shared β), h.held = .lisa :: ks →
      wp E (recvFromSelect o) (fun _ h => h.held = ks) h := recvFromSelect_keeps hk o
  simp [lisaRecvFrom, hh, hk, hsel]

/-! ### `lisa_connect` gives it back unless it refuses the address -/

theorem connectTo_iff {addr : Option (List UInt8)} (hE : addr = none → E .crash) (o : ConnectOutcome)
    (hh : h.held = .lisa :: ks) :
    wp E (connectTo addr o) (fun _ h => h.held = ks) h ↔ ¬Refuses h.shared.l.vsock addr o := by
  have hopen : wp E (connectOpen o) (fun _ h => h.held = ks) h := connectOpen_keeps hk o h hh
  cases addr with
  | none => cases hv : h.shared.l.vsock <;> simp [connectTo, Refuses, hv, hE rfl, hopen]
  | some a => cases hv : h.shared.l.vsock <;> simp [connectTo, Refuses, hv, hh, hopen]

theorem lisaConnect_iff {addr : Option (List UInt8)} (hE : addr = none → E .crash) (o : ConnectOutcome)
    (hh : h.held = ks) :
    wp E (lisaConnect addr o) (fun _ h => h.held = ks) h ↔
      (0 ≤ (h.others 0 h.shared).l.state.code →
        ((h.others 0 h.shared).l.state.code < LisaState.created.code → 0 ≤ o.setup.socket ∧ 0 ≤ o.setup.fcntl) →
        ¬Refuses (h.others 0 h.shared).l.vsock addr o) := by
  have hto (h : Holder LockName (Shared β)) (hh : h.held = .lisa :: ks) :
      wp E (connectTo addr o) (fun _ h => h.held = ks) h ↔ ¬Refuses h.shared.l.vsock addr o :=
    connectTo_iff hk hE o hh
  simp only [lisaConnect, wp_bind, wp_lock, wp_lisa, wp_setLisa, wp_ite, hh, hk, if_false, Holder.map_shared,
    Holder.acquire_shared]
  by_cases hs : (h.others 0 h.shared).l.state.code < 0
  · simp only [hs, if_true]
    simp [hh, Int.not_le.2 hs]
  · have hs' := Int.not_lt.1 hs
    by_cases hc : (h.others 0 h.shared).l.state.code < LisaState.created.code
    · have hiff := lisaSetupTcp_state_nonneg (l := { (h.others 0 h.shared).l with clsvr := .client }) hs' o.setup
      by_cases ho : 0 ≤ o.setup.socket ∧ 0 ≤ o.setup.fcntl
      · have hsetup := hiff.2 ho
        simp [hs, hs', hc, ho, Int.not_lt.2 hsetup, hto, hh]
      · have hsetup := mt hiff.1 ho
        simp [hs, hs', hc, ho, Int.not_le.1 hsetup, hh]
    · simp [hs, hs', hc, hto, hh]

end

/-! ### With no other thread the functions do what the sections do -/

section
variable {E : Stop → Prop} {h : Holder LockName (Shared β)}

theorem sendRounds_alone {msg : List UInt8} {s r : Sending} {outs : List SendOutcome} (ha : h.Alone) (hh : h.held = [])
    (hr : sendLoop msg s outs = some r) :
    wp E (sendRounds msg s outs) (fun r' h' => r' = r ∧ h'.shared = h.shared ∧ h'.held = [] ∧ h'.Alone) h := by
  induction outs generalizing s h with
  | nil =>
    rw [sendLoop] at hr
    split at hr
    · cases hr
    · next hc =>
      cases hr
      rw [sendRounds, if_neg hc]
      exact ⟨rfl, rfl, hh, ha⟩
  | cons o outs ih =>
    rw [sendLoop] at hr
    split at hr
    · next hc =>
      obtain ⟨s', hs', hloop⟩ := Option.bind_eq_some_iff.1 hr
      have hlock : ((h.acquire .lisa).release .lisa).Alone := fun n s => ha (n + 1) s
      have hshared : ((h.acquire .lisa).release .lisa).shared = h.shared := ha 0 h.shared
      have hheld : ((h.acquire .lisa).release .lisa).held = [] := by simp [hh]
      cases o with
      | notReady =>
        cases hs'
        have hnext := ih hlock hheld hloop
        rw [hshared] at hnext
        simpa [sendRounds, hc, hh] using hnext
      | notSet =>
        cases hs'
        have hnext := ih hlock hheld hloop
        rw [hshared] at hnext
        simpa [sendRounds, hc, hh] using hnext
      | sends rc => simpa [sendRounds, hc, hs'] using ih ha hh hloop
    · cases hr

theorem sendFinish_alone (rc : Int) (thisState : LisaState) (ha : h.Alone) (hh : h.held = []) :
    wp E (sendFinish rc thisState) (fun rc' h' => rc' = rc ∧
      h'.shared = { h.shared with l := h.shared.l.sendPost (if rc < 0 then .error else thisState) }) h := by
  have h0 : h.others 0 h.shared = h.shared := ha 0 h.shared
  simp [sendFinish, hh, h0]

/-- With no other thread, `lisaSend` is `Lisa.lisaSend`. -/
theorem lisaSend_alone {l' : Lisa} {rc : Int} {msg took : List UInt8} {outs : List SendOutcome} (ha : h.Alone)
    (hh : h.held = []) (hr : h.shared.l.lisaSend msg outs = some (l', rc, took)) :
    wp E (lisaSend msg outs) (fun rc' h' => rc' = rc ∧ h'.shared = { h.shared with l := l' }) h := by
  have h0 : h.others 0 h.shared = h.shared := ha 0 h.shared
  have hlock : ((h.acquire .lisa).release .lisa).Alone := fun n s => ha (n + 1) s
  have hheld : ((h.acquire .lisa).release .lisa).held = [] := by simp [hh]
  simp only [lisaSend, wp_bind, wp_lock, wp_unlock, wp_lisa, wp_ite, wp_pure, hh, List.not_mem_nil, if_false,
    Holder.acquire_shared, Holder.acquire_held, List.mem_singleton, if_true, Holder.release_shared, h0]
  unfold Lisa.lisaSend sendPre at hr
  by_cases hc : h.shared.l.state.code < LisaState.connected.code
  · have hnone : h.shared.l = l' ∧ -1 = rc := by
      simp only [hc, if_true, Option.ite_none_right_eq_some, Option.some.injEq, Prod.mk.injEq] at hr
      exact ⟨hr.2.1, hr.2.2.1⟩
    obtain ⟨rfl, rfl⟩ := hnone
    have hcode : LisaState.error.code = -1 := rfl
    simp [hc, hcode]
  · have hneg : ¬h.shared.l.state.code < 0 := fun hneg => hc (Int.lt_trans hneg (by decide))
    simp only [hc, hneg, if_false]
    simp only [hc, if_false, sendBody] at hr
    by_cases ht : h.shared.l.type = .tcp
    · simp only [ht, if_true, Option.map_map, Option.map_eq_some_iff] at hr ⊢
      obtain ⟨s, hs, hr⟩ := hr
      cases hr
      refine wp_mono (fun _ he => he) ?_ (sendRounds_alone hlock hheld hs)
      rintro s h' ⟨rfl, hshared, hheld', halone⟩
      have hfinish := sendFinish_alone (E := E) (asInt s.bytesSent) s.thisState halone hheld'
      rw [hshared] at hfinish
      simpa [h0] using hfinish
    · simp only [ht, if_false, Option.map_eq_some_iff] at hr ⊢
      obtain ⟨r, hs, hr⟩ := hr
      cases hr
      split at hs
      · next rc' =>
        split at hs
        · cases hs
          have hagain : ((((h.acquire .lisa).release .lisa).acquire .lisa).release .lisa).Alone :=
            fun n s => ha (n + 2) s
          have hfinish := sendFinish_alone (E := E) rc' .sentData hagain (by simp [hh])
          simpa [sendDatagram, hh, h0, ha 1 h.shared] using hfinish
        · cases hs
      · cases hs

theorem acceptSelect_alone (out : AcceptOutcome) (ha : h.Alone) (hh : h.held = [.lisa]) :
    wp E (acceptSelect out) (fun rc h' => (h'.shared.l, rc) = h.shared.l.acceptPost out) h := by
  have h0 : h.others 0 h.shared = h.shared := ha 0 h.shared
  cases out <;> simp [acceptSelect, hh, h0, acceptPost]

theorem lisaAccept_alone (o : ListenOutcome) (out : AcceptOutcome) (ha : h.Alone) (hh : h.held = []) :
    wp E (lisaAccept o out) (fun rc h' => (h'.shared.l, rc) =
      if (h.shared.l.acceptPre o).2 then (h.shared.l.acceptPre o).1.acceptPost out
      else ((h.shared.l.acceptPre o).1, 0)) h := by
  have h0 : h.others 0 h.shared = h.shared := ha 0 h.shared
  have hlock : (h.acquire .lisa).Alone := fun n s => ha (n + 1) s
  simp only [lisaAccept, wp_bind, wp_lock, wp_lisa, wp_setLisa, wp_setState, wp_ite, wp_pure, wp_unlock, hh,
    List.not_mem_nil, if_false, Holder.acquire_shared, Holder.acquire_held, Holder.map_shared, Holder.map_held,
    Holder.release_shared, List.mem_singleton, if_true, h0, acceptPre]
  by_cases hneg : h.shared.l.state.code < 0
  · simp [hneg]
  · by_cases hl : h.shared.l.state.code < LisaState.listening.code
    · by_cases hn : (h.shared.l.lisaListen o).state.code < 0
      · simp [hneg, hl, hn]
      · simp only [hneg, hl, hn, if_true, if_false]
        refine wp_mono (fun _ he => he) (fun _ _ hq => ?_) (acceptSelect_alone out hlock (by simp [hh]))
        simpa [h0] using hq
    · simp only [hneg, hl, if_true, if_false]
      refine wp_mono (fun _ he => he) (fun _ _ hq => ?_) (acceptSelect_alone out hlock (by simp [hh]))
      simpa [h0] using hq

theorem recvPart1Post_eq {l : Lisa} (hl : l.clsvr ≠ .client) (thisFd : Int) (ready : List Int) :
    l.recvPart1Post thisFd (some ready) =
      ({ (pickFd l thisFd ready).1 with thisFd := (pickFd l thisFd ready).2 }, (pickFd l thisFd ready).2) := by
  unfold recvPart1Post pickFd readyFd
  cases hf : l.table.find? fun fd => fd ∈ ready with
  | none => simp [hl, hf]
  | some fd => by_cases hfd : fd = 0 <;> simp [hl, hf, hfd]

theorem recvPart1_alone (sel : SelectOutcome) (rc : Int) (ha : h.Alone) (hh : h.held = [])
    (hl : h.shared.l.clsvr = .server) :
    wp E (lisaRecvWithPart 1 sel rc) (fun clfd h' => (h'.shared.l, clfd) =
      match h.shared.l.recvPart1Pre with
      | .returns rc => (h.shared.l, rc)
      | .selects _ thisFd => h.shared.l.recvPart1Post thisFd (if sel.rc ≤ 0 then none else some sel.ready)) h := by
  have h0 : h.others 0 h.shared = h.shared := ha 0 h.shared
  have h1 : h.others 1 h.shared = h.shared := ha 1 h.shared
  simp only [lisaRecvWithPart, wp_bind, wp_lock, wp_unlock, wp_lisa, wp_ite, wp_pure, hh, List.not_mem_nil, if_false,
    Holder.acquire_shared, Holder.acquire_held, List.mem_singleton, if_true, Holder.release_shared, h0, recvPart1Pre,
    Nat.reduceEqDiff]
  by_cases hneg : h.shared.l.state.code < 0
  · simp [hneg]
  · by_cases hc : h.shared.l.state.code < LisaState.connected.code
    · simp [hneg, hc]
    · by_cases hr : sel.rc ≤ 0
      · simp [hneg, hc, hl, hr, recvFinish, recvPart1Post, hh, h0, h1]
      · simp [hneg, hc, hl, hr, hh, h0, h1, recvPart1Post_eq, lastSelected]

theorem recvPart2_alone (sel : SelectOutcome) (rc : Int) (hh : .lisa ∈ h.held) (hl : h.shared.l.clsvr = .server)
    (ht : h.shared.l.type = .tcp) :
    wp E (lisaRecvWithPart 2 sel rc) (fun rc' h' => (h'.shared.l, rc') = h.shared.l.recvPart2 rc) h := by
  simp only [lisaRecvWithPart, recvStored, recvData, recvFinish, wp_bind, wp_lisa, wp_ite, wp_setLisa, wp_unlock,
    wp_pure, recvPart2, if_true]
  by_cases hfd : h.shared.l.thisFd = 0 <;> simp [hfd, ht, hl, hh]

end

end Lisa.Locks
end WlanxVms
