import WlanxVms.Lisa.Connect

/-!
# What the lisa functions wait on

Each function fills the set for its `select` before it gives the lock back. `lisa_connect` and `lisa_accept` read the
descriptor before they make the socket, the receive of the bcaster sets it to 0, and `lisa_recv_from` does not clear the
set. `lisa_connect` hands the set to `select` twice, as the first call leaves it. The result of a definition here is `none`
when the call returns before the `select`; otherwise it is the lisa at that moment and the calls of `select`, each unless
it is undefined.
-/

namespace WlanxVms
namespace Lisa

/-! ### The sets -/

/-- The two calls of `lisa_connect`, where the first one answers `first`: a time out empties the set, and without a
time limit there is none. -/
def selectTwice (limited : Bool) (first : SelectAnswer) (fd : Int) : List (Option SelectCall) :=
  match first with
  | .ready | .fails => [selectOne [] fd, selectOne [] fd]
  | .timedOut => if limited then [selectOne [] fd, some { nfds := fd + 1, fds := [] }] else [selectOne [] fd]

def connectSelects (l : Lisa) (c : ConnectCall) : Option (Lisa × List (Option SelectCall)) :=
  match l.connectPre c with
  | some (l', some thisFd) =>
    some (l', selectTwice c.limited (if thisFd = l'.fd then c.result.answers c.limited else c.other).1 thisFd)
  | _ => none

def acceptSelects (l : Lisa) (o : ListenOutcome) : Option (Lisa × List (Option SelectCall)) :=
  let thisFd := l.fd
  match l.acceptPre o with
  | (l', true) => some (l', [selectOne [] thisFd])
  | (_, false) => none

/-- The loop over `client_fds`, which has `MAX_CLIENTS` entries -/
def selectClients (l : Lisa) : Option SelectCall := if l.numClients ≤ maxClients then selectAll l.table else none

def recvSelects (clientFd : Int) (l : Lisa) : Option (Lisa × List (Option SelectCall)) :=
  if l.state.code < 0 then none
  else if l.state.code < LisaState.connected.code ∨ l.clsvr = .unknown then none
  else some (l, [if l.clsvr = .client then selectOne [] clientFd else l.selectClients])

/-- `lisa_recv` of the cross_injector -/
def lisaRecvSelects (l : Lisa) : Option (Lisa × List (Option SelectCall)) := recvSelects l.fd l

/-- `lisa_recv_with_part` of the bcaster, which sets `this_fd` to 0 -/
def lisaRecvWithPartSelects (l : Lisa) : Option (Lisa × List (Option SelectCall)) := recvSelects 0 l

/-- `lisa_recv_from`; `this_fdset` is what the set has before. -/
def recvFromSelects (l : Lisa) (bind : Int) (thisFdset : FdSet) : Option (Lisa × List (Option SelectCall)) :=
  if l.state.code < 0 then none
  else if l.state.code < LisaState.created.code then none
  else if l.type ≠ .udp then none
  else if l.state.code < LisaState.bound.code then
    if bind < 0 then none else some ({ l with state := .bound }, [selectOne thisFdset l.fd])
  else some (l, [selectOne thisFdset l.fd])

/-! ### The sockets of a lisa -/

def ownSocket (l : Lisa) : List Int := [l.fd]

def ownSockets (l : Lisa) : List Int := if l.clsvr = .client then [l.fd] else l.table

/-- If the call comes to the `select`, it waits on the sockets that the lisa has then. -/
def WaitsOnOwn (own : Lisa → List Int) (r : Option (Lisa × List (Option SelectCall))) : Prop :=
  ∀ l' sels, r = some (l', sels) → ∀ sel ∈ sels, ∃ call, sel = some call ∧ call.WaitsOn (own l')

structure LisaWaits (l : Lisa) (c : ConnectCall) (o : ListenOutcome) (bind : Int) (thisFdset : FdSet) : Prop where
  connect : WaitsOnOwn ownSocket (l.connectSelects c)
  accept : WaitsOnOwn ownSocket (l.acceptSelects o)
  recv : WaitsOnOwn ownSockets l.lisaRecvSelects
  recvWithPart : WaitsOnOwn ownSockets l.lisaRecvWithPartSelects
  recvFrom : WaitsOnOwn ownSocket (l.recvFromSelects bind thisFdset)

/-- The descriptor that is read before the socket is made is the socket. -/
def ReadsSocket (l : Lisa) (o : ListenOutcome) : Prop :=
  FitsFdSet l.fd ∧ (l.state.code < LisaState.created.code → l.fd = o.socket)

/-- The first `select` of `lisa_connect` does not time out. -/
def InTime (c : ConnectCall) : Prop :=
  c.limited = true → match c.result with
    | .succeeds | .fails => True
    | .established inTime | .refused inTime => inTime = true
    | .timedOut => False

def TableFits (l : Lisa) : Prop := l.numClients ≤ maxClients ∧ ∀ fd ∈ l.table, FitsFdSet fd

variable {l l' : Lisa} {c : ConnectCall} {o : ListenOutcome} {sel : Option SelectCall} {sels : List (Option SelectCall)} {own : Lisa → List Int}
  {P : Prop}

theorem waitsOnOwn_none_iff : WaitsOnOwn own none ↔ ((none : Option (Lisa × List (Option SelectCall))).isSome = true → P) :=
  iff_of_true (fun _ _ h => nomatch h) fun h => nomatch h

theorem waitsOnOwn_some_iff (hwaits : (∀ sel ∈ sels, ∃ call, sel = some call ∧ call.WaitsOn (own l')) ↔ P) :
    WaitsOnOwn own (some (l', sels)) ↔ ((some (l', sels)).isSome = true → P) := by
  constructor
  · exact fun h _ => hwaits.1 (h l' sels rfl)
  · intro h l'' sels' heq
    cases heq
    exact hwaits.2 (h rfl)

theorem waitsOnOwn_one_iff (hwaits : (∃ call, sel = some call ∧ call.WaitsOn (own l')) ↔ P) :
    WaitsOnOwn own (some (l', [sel])) ↔ ((some (l', [sel])).isSome = true → P) :=
  waitsOnOwn_some_iff (List.forall_mem_singleton.trans hwaits)

/-! ### The socket that is made in the call -/

theorem fd_lisaSetupTcp (h : 0 ≤ l.state.code) (o : ListenOutcome) : (l.lisaSetupTcp o).fd = o.socket := by
  unfold lisaSetupTcp lisaSetNonblocking
  rw [if_neg (Int.not_lt.2 h)]
  split_ifs <;> rfl

theorem fd_lisaSetupUdp (h : 0 ≤ l.state.code) (o : ListenOutcome) : (l.lisaSetupUdp o).fd = o.socket := by
  unfold lisaSetupUdp
  rw [if_neg (Int.not_lt.2 h)]
  split_ifs <;> rfl

theorem fd_listenBind (l : Lisa) (o : ListenOutcome) : (l.listenBind o).fd = l.fd := by
  unfold listenBind
  simp only
  split_ifs <;> rfl

theorem fd_lisaListen (h : 0 ≤ l.state.code) (o : ListenOutcome) :
    (l.lisaListen o).fd = if l.state.code < LisaState.created.code then o.socket else l.fd := by
  unfold lisaListen
  rw [if_neg (Int.not_lt.2 h)]
  simp only
  split
  · split
    · rw [fd_listenBind]
      exact fd_lisaSetupUdp (l := { l with clsvr := .server }) h o
    · rw [fd_listenBind]
      exact fd_lisaSetupTcp (l := { l with clsvr := .server }) h o
  · rw [fd_listenBind]

theorem fd_connectSetup (h : 0 ≤ l.state.code) (o : ListenOutcome) :
    (l.connectSetup o).fd = if l.state.code < LisaState.created.code then o.socket else l.fd := by
  unfold connectSetup
  simp only
  split
  · exact fd_lisaSetupTcp (l := { l with clsvr := .client }) h o
  · rfl

theorem readsSocket_iff (hfd : l'.fd = if l.state.code < LisaState.created.code then o.socket else l.fd) :
    (∃ call, selectOne [] l.fd = some call ∧ call.WaitsOn (ownSocket l')) ↔ l.ReadsSocket o := by
  rw [ownSocket, waitsOn_selectOne, hfd, ReadsSocket]
  by_cases hnew : l.state.code < LisaState.created.code
  · simp [hnew]
  · simp [hnew]

/-! ### The functions -/

theorem connectSelects_cases (l : Lisa) (c : ConnectCall) : l.connectSelects c = none ∨
    0 ≤ l.state.code ∧ l.connectSelects c = some (l.connectSetup c.setup, selectTwice c.limited
      (if l.fd = (l.connectSetup c.setup).fd then c.result.answers c.limited else c.other).1 l.fd) := by
  unfold connectSelects
  by_cases hl : l.state.code < 0
  · rw [connectPre, if_pos hl]
    exact .inl rfl
  · rw [connectPre_of_nonneg (Int.not_lt.1 hl)]
    by_cases hs : (l.connectSetup c.setup).state.code < 0
    · rw [if_pos hs]
      exact .inl rfl
    · rw [if_neg hs, connectTo]
      cases (l.connectSetup c.setup).isAddress c with
      | none => exact .inl rfl
      | some ok =>
        rw [Option.map_some]
        by_cases hgo : ok = true ∧ c.result ≠ .fails
        · rw [if_pos hgo]
          exact .inr ⟨Int.not_lt.1 hl, rfl⟩
        · rw [if_neg hgo]
          exact .inl rfl

/-- Both calls get the descriptor, unless the first one times out. -/
theorem selectTwice_iff {limited : Bool} {first : SelectAnswer} {fd : Int} {fds : List Int} (hne : fds ≠ []) :
    (∀ sel ∈ selectTwice limited first fd, ∃ call, sel = some call ∧ call.WaitsOn fds) ↔
      (∃ call, selectOne [] fd = some call ∧ call.WaitsOn fds) ∧ (limited = true → first ≠ .timedOut) := by
  obtain ⟨d, hd⟩ := List.exists_mem_of_ne_nil _ hne
  have hempty : ¬ ({ nfds := fd + 1, fds := [] } : SelectCall).WaitsOn fds := fun h => List.not_mem_nil ((h.exactly d).2 hd)
  cases first with
  | ready => simp [selectTwice]
  | fails => simp [selectTwice]
  | timedOut => cases limited <;> simp [selectTwice, hempty]

theorem inTime_iff (c : ConnectCall) : (c.limited = true → (c.result.answers c.limited).1 ≠ .timedOut) ↔ InTime c := by
  unfold InTime
  cases hl : c.limited with
  | false => exact iff_of_true nofun nofun
  | true =>
    cases c.result with
    | succeeds => decide
    | fails => decide
    | established inTime => cases inTime <;> decide
    | refused inTime => cases inTime <;> decide
    | timedOut => decide

theorem connect_waits_iff (l : Lisa) (c : ConnectCall) : WaitsOnOwn ownSocket (l.connectSelects c) ↔
    ((l.connectSelects c).isSome = true → l.ReadsSocket c.setup ∧ InTime c) := by
  rcases connectSelects_cases l c with hnone | ⟨hl, hsome⟩
  · rw [hnone]
    exact waitsOnOwn_none_iff
  · rw [hsome]
    refine waitsOnOwn_some_iff ?_
    have hfd := fd_connectSetup hl c.setup
    rw [selectTwice_iff (show ownSocket _ ≠ [] from nofun), readsSocket_iff hfd]
    refine and_congr_right fun hreads => ?_
    have hsame : l.fd = (l.connectSetup c.setup).fd := by
      rw [hfd]
      split
      · next hnew => exact hreads.2 hnew
      · rfl
    rw [if_pos hsame, inTime_iff]

theorem acceptSelects_cases (l : Lisa) (o : ListenOutcome) : l.acceptSelects o = none ∨
    ∃ l', l.acceptSelects o = some (l', [selectOne [] l.fd]) ∧
      l'.fd = if l.state.code < LisaState.created.code then o.socket else l.fd := by
  unfold acceptSelects acceptPre
  by_cases hl : l.state.code < 0
  · rw [if_pos hl]
    exact .inl rfl
  · have hfd := fd_lisaListen (Int.not_lt.1 hl) o
    rw [if_neg hl]
    split
    · next l' hpre =>
      refine .inr ⟨l', rfl, ?_⟩
      split at hpre
      · next hst =>
        simp only at hpre
        split at hpre
        · cases hpre
        · cases hpre
          exact hfd
      · next hst =>
        cases hpre
        have hnew : ¬ l.state.code < LisaState.created.code := by
          have : LisaState.created.code < LisaState.listening.code := by decide
          omega
        rw [if_neg hnew]
    · exact .inl rfl

theorem accept_waits_iff (l : Lisa) (o : ListenOutcome) : WaitsOnOwn ownSocket (l.acceptSelects o) ↔
    ((l.acceptSelects o).isSome = true → l.ReadsSocket o) := by
  rcases acceptSelects_cases l o with hnone | ⟨l', hsome, hfd⟩
  · rw [hnone]
    exact waitsOnOwn_none_iff
  · rw [hsome]
    exact waitsOnOwn_one_iff (readsSocket_iff hfd)

theorem waitsOn_selectClients : (∃ call, l.selectClients = some call ∧ call.WaitsOn l.table) ↔ l.TableFits := by
  unfold selectClients TableFits
  by_cases hmax : l.numClients ≤ maxClients
  · rw [if_pos hmax, waitsOn_selectAll]
    exact (and_iff_right hmax).symm
  · rw [if_neg hmax]
    exact iff_of_false (fun ⟨_, h, _⟩ => nomatch h) fun h => hmax h.1

theorem recv_waits_iff (clientFd : Int) (l : Lisa) : WaitsOnOwn ownSockets (recvSelects clientFd l) ↔
    ((recvSelects clientFd l).isSome = true →
      if l.clsvr = .client then FitsFdSet clientFd ∧ clientFd = l.fd else l.TableFits) := by
  unfold recvSelects
  by_cases hl : l.state.code < 0
  · rw [if_pos hl]
    exact waitsOnOwn_none_iff
  rw [if_neg hl]
  by_cases hst : l.state.code < LisaState.connected.code ∨ l.clsvr = .unknown
  · rw [if_pos hst]
    exact waitsOnOwn_none_iff
  rw [if_neg hst]
  refine waitsOnOwn_one_iff ?_
  unfold ownSockets
  by_cases hcl : l.clsvr = .client
  · simp only [if_pos hcl]
    rw [waitsOn_selectOne]
    exact ⟨fun h => ⟨h.1, h.2.1⟩, fun h => ⟨h.1, h.2, nofun⟩⟩
  · simp only [if_neg hcl]
    exact waitsOn_selectClients

theorem lisaRecvWithPartSelects_server {fds : List Int} {last : Int} (hsvr : l.clsvr = .server)
    (h : l.recvPart1Pre = .selects fds last) : l.lisaRecvWithPartSelects = some (l, [l.selectClients]) ∧ fds = l.table := by
  unfold recvPart1Pre at h
  unfold lisaRecvWithPartSelects recvSelects
  split at h
  · cases h
  · next hl =>
    split at h
    · cases h
    · next hst =>
      cases h
      rw [if_neg hl, if_neg hst, if_neg (by rw [hsvr]; decide)]
      exact ⟨rfl, rfl⟩

theorem recvFrom_waits_iff (l : Lisa) (bind : Int) (thisFdset : FdSet) :
    WaitsOnOwn ownSocket (l.recvFromSelects bind thisFdset) ↔
      ((l.recvFromSelects bind thisFdset).isSome = true → FitsFdSet l.fd ∧ ∀ fd ∈ thisFdset, fd = l.fd) := by
  have hset : ∀ l' : Lisa, l'.fd = l.fd → ((∃ call, selectOne thisFdset l.fd = some call ∧ call.WaitsOn (ownSocket l')) ↔
      FitsFdSet l.fd ∧ ∀ fd ∈ thisFdset, fd = l.fd) := by
    intro l' hfd
    rw [ownSocket, hfd, waitsOn_selectOne]
    exact and_congr_right fun _ => and_iff_right rfl
  unfold recvFromSelects
  split_ifs
  · exact waitsOnOwn_none_iff
  · exact waitsOnOwn_none_iff
  · exact waitsOnOwn_none_iff
  · exact waitsOnOwn_none_iff
  · exact waitsOnOwn_one_iff (hset _ rfl)
  · exact waitsOnOwn_one_iff (hset _ rfl)

/-- The functions wait on the sockets of the lisa, and on no others, exactly when `lisa_connect` and `lisa_accept` find
a socket, the first `select` of `lisa_connect` does not time out, a client of the bcaster has the descriptor 0, the set of `lisa_recv_from` has nothing else in it before, and
all descriptors fit. -/
theorem lisaWaits_iff (l : Lisa) (c : ConnectCall) (o : ListenOutcome) (bind : Int) (thisFdset : FdSet) :
    l.LisaWaits c o bind thisFdset ↔
      ((l.connectSelects c).isSome = true → l.ReadsSocket c.setup ∧ InTime c) ∧
      ((l.acceptSelects o).isSome = true → l.ReadsSocket o) ∧
      (l.lisaRecvSelects.isSome = true → if l.clsvr = .client then FitsFdSet l.fd else l.TableFits) ∧
      (l.lisaRecvWithPartSelects.isSome = true → if l.clsvr = .client then l.fd = 0 else l.TableFits) ∧
      ((l.recvFromSelects bind thisFdset).isSome = true → FitsFdSet l.fd ∧ ∀ fd ∈ thisFdset, fd = l.fd) := by
  have hrecv : WaitsOnOwn ownSockets l.lisaRecvSelects ↔
      (l.lisaRecvSelects.isSome = true → if l.clsvr = .client then FitsFdSet l.fd else l.TableFits) := by
    rw [lisaRecvSelects, recv_waits_iff, and_iff_left rfl]
  have hpart : WaitsOnOwn ownSockets l.lisaRecvWithPartSelects ↔
      (l.lisaRecvWithPartSelects.isSome = true → if l.clsvr = .client then l.fd = 0 else l.TableFits) := by
    rw [lisaRecvWithPartSelects, recv_waits_iff, and_iff_right (show FitsFdSet 0 by decide), @eq_comm Int 0 l.fd]
  rw [← connect_waits_iff, ← accept_waits_iff, ← hrecv, ← hpart, ← recvFrom_waits_iff]
  exact ⟨fun ⟨h₁, h₂, h₃, h₄, h₅⟩ => ⟨h₁, h₂, h₃, h₄, h₅⟩, fun ⟨h₁, h₂, h₃, h₄, h₅⟩ => ⟨h₁, h₂, h₃, h₄, h₅⟩⟩

/-- The first `lisa_accept` of the bcaster, whose socket is 3, waits on 0. -/
theorem not_lisaWaits : ¬ ∀ (l : Lisa) (c : ConnectCall) (o : ListenOutcome) (bind : Int) (thisFdset : FdSet),
    l.LisaWaits c o bind thisFdset := by
  intro h
  let l : Lisa := { fd := 0, clientFd := 0, clientFds := Mem.fill 0, thisFd := 0, numClients := 0,
                    state := .uninitialized, clientState := .uninitialized, type := .unset, clsvr := .unknown,
                    vsock := false }
  let c : ConnectCall := { addr := none, setup := ⟨3, 0, 0, 0⟩, inetPton := 1, result := .succeeds, limited := true,
                           other := (.timedOut, .timedOut) }
  have hreads := (accept_waits_iff l ⟨3, 0, 0, 0⟩).1 (h l c ⟨3, 0, 0, 0⟩ 0 []).accept (by decide)
  have hfd := hreads.2 (by decide)
  revert hfd
  decide

end Lisa
end WlanxVms
