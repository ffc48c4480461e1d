import WlanxVms.Lib.Mem
import WlanxVms.Lib.Word

/-!
# The socket abstraction (`lisa.c`)

A lisa function holds `l->lock` except while it waits in `select` or sends, so each function is cut
at these points into sections that are atomic for the other threads: `acceptPre` / `acceptPost`,
`sendPre` / `sendLoop` / `sendPost`, `recvPart1Pre` / `recvPart1Post` / `recvPart2`. What the
operating system answers in between is an argument of a section. The bcaster and the
cross_injector have the same `lisa_accept`, `lisa_send` and `lisa_close_client`; the sections of the
receive are the bcaster's.
-/

namespace WlanxVms

inductive LisaState where
  | error | uninitialized | created | bound | listening | connected | timeout | accepted | ok
  | gotData | sentData | closed
deriving DecidableEq

/-- The values of `LISA_ERROR` to `LISA_CLOSED`. -/
def LisaState.code : LisaState → Int
  | .error => -1
  | .uninitialized => 1
  | .created => 2
  | .bound => 3
  | .listening => 4
  | .connected => 5
  | .timeout => 6
  | .accepted => 7
  | .ok => 8
  | .gotData => 9
  | .sentData => 10
  | .closed => 11

inductive LisaType where
  | unset | tcp | udp
deriving DecidableEq

inductive ClSvr where
  | unknown | client | server
deriving DecidableEq

def maxClients : Nat := 10

structure Lisa where
  fd : Int
  clientFd : Int
  clientFds : Mem Int
  thisFd : Int
  numClients : Int
  state : LisaState
  clientState : LisaState
  type : LisaType
  clsvr : ClSvr
  vsock : Bool

/-- What `socket`, `fcntl`, `bind` and `listen` return. -/
structure ListenOutcome where
  socket : Int
  fcntl : Int
  bind : Int
  listen : Int

/-- No call on the listening socket fails. -/
def ListenOutcome.ok (o : ListenOutcome) : Bool := 0 ≤ o.socket ∧ 0 ≤ o.fcntl ∧ 0 ≤ o.bind ∧ 0 ≤ o.listen

/-- What `select` says in `lisa_accept`, and what `accept` returns when there is a connection. -/
inductive AcceptOutcome where
  | selectFails
  | timeout
  | notSet
  | accepts (rc : Int)

/-- The locals of a send that went on to the `select`. -/
structure SendCall where
  thisSocket : Int
  thisState : LisaState
  thisType : LisaType

/-- What `select` and `send` (or `sendto`) answer in one round of the sending loop. -/
inductive SendOutcome where
  | notReady
  | notSet
  | sends (rc : Int)

/-- Neither `select` nor `send` fails. -/
def SendOutcome.ok : SendOutcome → Bool
  | .notReady => true
  | .notSet => false
  | .sends rc => 0 ≤ rc

/-- How many bytes the socket takes. -/
def SendOutcome.accepted : SendOutcome → Nat
  | .sends rc => rc.toNat
  | _ => 0

/-- What is added to `bytes_sent`. -/
def SendOutcome.result : SendOutcome → Int
  | .sends rc => rc
  | _ => 0

/-- `select` reports the socket that it was asked about, or nothing. -/
def SendOutcome.isSet : SendOutcome → Bool
  | .notSet => false
  | _ => true

/-- The state of the sending loop: `bytes_sent`, `this_state` and the bytes the socket took. -/
structure Sending where
  bytesSent : Nat
  thisState : LisaState
  took : List UInt8

/-- `lisa_send` between its two locked sections: the result, the state to store and the bytes that
the socket took. -/
structure SendResult where
  rc : Int
  thisState : LisaState
  took : List UInt8

/-- How `lisa_recv_part1` leaves its first section. -/
inductive RecvPre where
  | returns (rc : Int)
  | selects (fds : List Int) (thisFd : Int)

namespace Lisa

/-- `lisa_open`, which leaves the other fields as they are. -/
def lisaOpen (l : Lisa) : Lisa :=
  { l with state := .uninitialized, clientState := .uninitialized, numClients := 0, clsvr := .unknown,
           vsock := false }

def lisaSetToVsock (l : Lisa) : Lisa := { l with vsock := true }

/-- The descriptors `client_fds[0 .. num_clients)`. -/
def table (l : Lisa) : List Int := l.clientFds.read 0 l.numClients.toNat

/-! ### `lisa_listen`, `lisa_accept` -/

def lisaSetNonblocking (l : Lisa) (o : ListenOutcome) : Lisa :=
  if o.fcntl < 0 then { l with state := .error } else l

def lisaSetupTcp (l : Lisa) (o : ListenOutcome) : Lisa :=
  if l.state.code < 0 then l
  else if o.socket < 0 then { l with fd := o.socket, state := .error }
  else lisaSetNonblocking { l with fd := o.socket, state := .created, type := .tcp, clientState := .uninitialized } o

def lisaSetupUdp (l : Lisa) (o : ListenOutcome) : Lisa :=
  if l.state.code < 0 then l
  else if o.socket < 0 then { l with fd := o.socket, state := .error }
  else { l with fd := o.socket, type := .udp, state := .created }

/-- `lisa_listen` from `bind` on. -/
def listenBind (l : Lisa) (o : ListenOutcome) : Lisa :=
  if l.state.code < 0 then l
  else if l.state.code < LisaState.bound.code ∧ o.bind < 0 then { l with state := .error }
  else
    let l := if l.state.code < LisaState.bound.code then { l with state := .bound } else l
    if o.listen < 0 then { l with state := .error } else l

def lisaListen (l : Lisa) (o : ListenOutcome) : Lisa :=
  if l.state.code < 0 then l
  else
    let l := { l with clsvr := .server }
    if l.state.code < LisaState.created.code then
      if l.type = .udp then (l.lisaSetupUdp o).listenBind o else (l.lisaSetupTcp o).listenBind o
    else l.listenBind o

/-- `lisa_accept` before the `select`, and whether it goes on to it. -/
def acceptPre (l : Lisa) (o : ListenOutcome) : Lisa × Bool :=
  if l.state.code < 0 then (l, false)
  else if l.state.code < LisaState.listening.code then
    let l := l.lisaListen o
    if l.state.code < 0 then (l, false) else ({ l with state := .listening }, true)
  else (l, true)

def addClient (l : Lisa) (fd : Int) : Lisa :=
  { l with clientFd := fd, state := .accepted, clientState := .connected,
           clientFds := l.clientFds.set l.numClients.toNat fd, numClients := l.numClients + 1 }

/-- `lisa_accept` after the `select`, with its result. -/
def acceptPost (l : Lisa) : AcceptOutcome → Lisa × Int
  | .selectFails => ({ l with state := .error }, 0)
  | .timeout => ({ l with state := .timeout }, 1)
  | .notSet => ({ l with state := .accepted, clientState := .error }, 0)
  | .accepts rc =>
    if l.vsock then
      if rc ≤ 0 then ({ l with state := .accepted }, rc) else (l.addClient rc, rc)
    else (l.addClient rc, 1)

/-! ### `lisa_send` -/

/-- `lisa_send` before the `select`; `none` when it returns `-1` there. -/
def sendPre (l : Lisa) : Option SendCall :=
  if l.state.code < LisaState.connected.code then none
  else some { thisSocket := if l.clsvr = .client then l.fd else l.clientFd,
              thisState := if l.state ≠ .accepted then l.state else l.clientState,
              thisType := l.type }

/-- One round of the loop for a message; `send` takes at most what it is given, or fails. -/
def sendRound (msg : List UInt8) (s : Sending) : SendOutcome → Option Sending
  | .notReady => some { s with thisState := .timeout }
  | .notSet => some { s with thisState := .error }
  | .sends rc =>
    if -1 ≤ rc ∧ rc ≤ (msg.length - s.bytesSent : Nat) then
      some { bytesSent := u32 (s.bytesSent + rc), thisState := .sentData,
             took := s.took ++ (msg.drop s.bytesSent).take rc.toNat }
    else none

/-- The loop; `none` when it does not end with these outcomes. -/
def sendLoop (msg : List UInt8) (s : Sending) : List SendOutcome → Option Sending
  | [] => if s.bytesSent < msg.length ∧ s.thisState ≠ .error then none else some s
  | o :: os =>
    if s.bytesSent < msg.length ∧ s.thisState ≠ .error then (sendRound msg s o).bind fun s => sendLoop msg s os
    else none

def sendBody (c : SendCall) (msg : List UInt8) (outs : List SendOutcome) : Option SendResult :=
  if c.thisType = .tcp then
    (sendLoop msg { bytesSent := 0, thisState := c.thisState, took := [] } outs).map fun s =>
      let rc := asInt s.bytesSent
      { rc, thisState := if rc < 0 then .error else s.thisState, took := s.took }
  else match outs with
    | [.sends rc] =>
      if -1 ≤ rc ∧ rc ≤ msg.length then
        some { rc, thisState := if rc < 0 then .error else .sentData, took := msg.take rc.toNat }
      else none
    | _ => none

/-- `lisa_send` after the sending. -/
def sendPost (l : Lisa) (thisState : LisaState) : Lisa :=
  if l.state ≠ .accepted then { l with state := thisState } else { l with clientState := thisState }

/-- A whole `lisa_send`, with the bytes that the socket took. -/
def lisaSend (l : Lisa) (msg : List UInt8) (outs : List SendOutcome) : Option (Lisa × Int × List UInt8) :=
  match l.sendPre with
  | none => if outs.isEmpty then some (l, -1, []) else none
  | some c => (sendBody c msg outs).map fun r => (l.sendPost r.thisState, r.rc, r.took)

/-! ### `lisa_cast` -/

/-- `n` rounds of the loop of `lisa_cast` from `i` on, when no other thread uses the lisa; the sends
that it makes, with the bytes that each socket took. -/
def castLoop (lastClient : Int) (msg : List UInt8) :
    Nat → Nat → Lisa → List (List SendOutcome) → Option (Lisa × List (Int × List UInt8))
  | 0, _, l, outs => if outs.isEmpty then some (l, []) else none
  | n + 1, i, l, outs =>
    if l.clientFds i ≠ lastClient then
      match outs with
      | [] => none
      | o :: outs =>
        (lisaSend { l with clientFd := l.clientFds i } msg o).bind fun r =>
          (castLoop lastClient msg n (i + 1) r.1 outs).map fun r' => (r'.1, (l.clientFds i, r.2.2) :: r'.2)
    else castLoop lastClient msg n (i + 1) l outs

/-- A whole `lisa_cast`; whatever the sends return, its result is the length of the message. -/
def lisaCast (l : Lisa) (msg : List UInt8) (outs : List (List SendOutcome)) :
    Option (Lisa × Int × List (Int × List UInt8)) :=
  if l.clsvr = .client then
    match outs with
    | [o] => (l.lisaSend msg o).map fun r => (r.1, msg.length, [(l.fd, r.2.2)])
    | _ => none
  else (castLoop l.clientFd msg l.numClients.toNat 0 l outs).map fun r => (r.1, msg.length, r.2)

/-- The loop of `lisa_cast` of a server, from `i` on to the next client that is not `last_client`. -/
def castFind (l : Lisa) (lastClient : Int) (i : Nat) : Option Nat :=
  (List.range' i (l.numClients.toNat - i)).find? fun j => l.clientFds j ≠ lastClient

/-! ### `lisa_recv_part1`, `lisa_recv_part2` of a server -/

def recvPart1Pre (l : Lisa) : RecvPre :=
  if l.state.code < 0 then .returns (-1)
  else if l.state.code < LisaState.connected.code ∨ l.clsvr = .unknown then .returns 0
  else .selects l.table (l.table.getLastD 0)

/-- `lisa_recv_part1` after the `select` that answered `ready` (`none`: error or time out);
`thisFd` is the last descriptor selected on. It keeps the lock when it returns a descriptor. -/
def recvPart1Post (l : Lisa) (thisFd : Int) : Option (List Int) → Lisa × Int
  | none => ({ l with clientState := .timeout }, -1)
  | some ready =>
    match l.table.find? fun fd => fd ∈ ready with
    | some fd => if fd ≠ 0 then ({ l with clientFd := fd, thisFd := fd }, fd)
                 else ({ l with clientFd := 0, thisFd }, thisFd)
    | none => ({ l with clientFd := 0, thisFd }, thisFd)

/-- `lisa_recv_part2` of a TCP server; `rc` is what `recv` returns, if it is called. -/
def recvPart2 (l : Lisa) (rc : Int) : Lisa × Int :=
  if l.thisFd ≠ 0 then
    ({ l with clientState := if rc < 0 then .error else if rc = 0 then .closed else .gotData }, rc)
  else ({ l with clientState := .error }, -1)

/-! ### `lisa_close_client` -/

/-- The first loop: `i` after it. -/
def closeScan (l : Lisa) : Nat → Nat → Bool → Nat
  | 0, i, _ => i
  | fuel + 1, i, found =>
    if i < l.numClients.toNat ∧ !found then closeScan l fuel (i + 1) (l.clientFds i = l.clientFd) else i

def lisaCloseClient (l : Lisa) : Lisa :=
  if l.state.code < 0 then l
  else if l.clientState.code < LisaState.connected.code then l
  else
    let i := l.closeScan l.numClients.toNat 0 false
    { l with clientFds := l.clientFds.shiftDown (i + 1) (l.numClients.toNat - (i + 1)),
             numClients := l.numClients - 1, clientState := .uninitialized, state := .listening }

end Lisa
end WlanxVms
