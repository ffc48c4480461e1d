import WlanxVms.Lib.Select
import WlanxVms.Lisa.Locks
import WlanxVms.Lisa.Server

/-!
# What `lisa_connect` reports

After a non-blocking `connect` that is in progress, `lisa_connect` selects twice on one set, and goes by the second
result. It does not ask for the error of the socket. The descriptor that it selects on is read before `lisa_setup_tcp`
makes the socket of a lisa that was only opened.
-/

namespace WlanxVms

/-- What becomes of a non-blocking `connect`; `inTime`: it is decided before the first `select` times out. -/
inductive ConnectResult where
  | succeeds
  | fails
  | established (inTime : Bool)
  | refused (inTime : Bool)
  | timedOut
deriving DecidableEq

inductive SelectAnswer where
  | ready | timedOut | fails
deriving DecidableEq

/-- One call: the address, what the system answers, whether `wait_time` is a limit (not 0), and what the two calls of
`select` say of a descriptor that is not the socket. -/
structure ConnectCall where
  addr : Option (List UInt8)
  setup : ListenOutcome
  inetPton : Int
  result : ConnectResult
  limited : Bool
  other : SelectAnswer × SelectAnswer

def ConnectResult.isEstablished : ConnectResult → Bool
  | .succeeds | .established _ => true
  | _ => false

/-- What the two calls of `select` say of the socket, which is writable as soon as the connect is decided, in either
way. Without a time limit the first one waits for that. -/
def ConnectResult.answers (limited : Bool) : ConnectResult → SelectAnswer × SelectAnswer
  | .succeeds | .fails | .established true | .refused true => (.ready, .ready)
  | .established false | .refused false => if limited then (.timedOut, .ready) else (.ready, .ready)
  | .timedOut => (.timedOut, .timedOut)

/-- Whether the second `select` finds a descriptor; `none` when one of the two never returns. -/
def twoSelects (limited : Bool) : SelectAnswer × SelectAnswer → Option Bool
  -- a time out of the first one leaves an empty set to the second
  | (.timedOut, _) => if limited then some false else none
  | (_, .timedOut) => if limited then some false else none
  | (_, .ready) => some true
  | (_, .fails) => some false

/-- What the calls of the socket return, when the second `select` finds the descriptor, or does not -/
def ConnectCall.returns (c : ConnectCall) (found : Bool) : ConnectOutcome :=
  { setup := c.setup, inetPton := c.inetPton, connect := if c.result = .succeeds then 0 else -1,
    inProgress := c.result ≠ .fails, select := if found then 1 else 0 }

namespace Lisa

/-- Whether the address is one; `none` is a read through `NULL`. -/
def isAddress (l : Lisa) (c : ConnectCall) : Option Bool :=
  match c.addr with
  | none => if l.vsock then none else some true
  | some addr => some (if l.vsock then Locks.isnumber addr 10 else 0 < c.inetPton)

def connectSetup (l : Lisa) (o : ListenOutcome) : Lisa :=
  let l := { l with clsvr := .client }
  if l.state.code < LisaState.created.code then l.lisaSetupTcp o else l

def connectTo (l : Lisa) (c : ConnectCall) (thisFd : Int) : Option (Lisa × Option Int) :=
  (l.isAddress c).map fun ok =>
    if ok = true ∧ c.result ≠ .fails then (l, some thisFd) else ({ l with state := .error }, none)

/-- `lisa_connect` before the `select`, with the descriptor to select on, unless it returns -/
def connectPre (l : Lisa) (c : ConnectCall) : Option (Lisa × Option Int) :=
  if l.state.code < 0 then some (l, none)
  else
    let thisFd := l.fd
    let l := l.connectSetup c.setup
    if l.state.code < 0 then some (l, none) else l.connectTo c thisFd

/-- `lisa_connect` after the `select`; a failure of `getsockname` is printed only. -/
def connectPost (l : Lisa) (found : Bool) : Lisa := { l with state := if found then .connected else .error }

/-- A whole call, while no other thread uses the lisa; `none` when it does not return. -/
def lisaConnect (l : Lisa) (c : ConnectCall) : Option Lisa :=
  (l.connectPre c).bind fun (l, thisFd) =>
    match thisFd with
    | none => some l
    | some thisFd => (selectOne [] thisFd).bind fun _ =>
      (twoSelects c.limited (if thisFd = l.fd then c.result.answers c.limited else c.other)).map l.connectPost

/-! ### What it reports -/

/-- `connect` is called, and there is a connection. -/
def Established (l : Lisa) (c : ConnectCall) : Prop :=
  0 ≤ l.state.code ∧ 0 ≤ (l.connectSetup c.setup).state.code ∧ (l.connectSetup c.setup).isAddress c = some true ∧
    c.result.isEstablished = true

/-- The lisa is connected if there is a connection, and in error otherwise. -/
def Reports (l : Lisa) (c : ConnectCall) : Prop :=
  ∃ l', l.lisaConnect c = some l' ∧ (l.Established c → l'.state = .connected) ∧ (¬ l.Established c → l'.state = .error)

/-- Nothing is refused in time, nothing is established too late, and what is never decided has a time limit. -/
def Told (limited : Bool) : ConnectResult → Prop
  | .succeeds | .fails => True
  | .established inTime => limited = true → inTime = true
  | .refused inTime => limited = true ∧ inTime = false
  | .timedOut => limited = true

instance (limited : Bool) : (r : ConnectResult) → Decidable (Told limited r)
  | .succeeds | .fails => .isTrue trivial
  | .established _ => inferInstanceAs (Decidable (_ → _))
  | .refused _ => inferInstanceAs (Decidable (_ ∧ _))
  | .timedOut => inferInstanceAs (Decidable (_ = _))

/-- What has to be so when `connect` is called: the address is no `NULL`, and unless it fails, the descriptor that is
selected on is the socket and tells the result, or is another one that happens to be ready when there is a connection. -/
def ConnectTold (l : Lisa) (c : ConnectCall) : Prop :=
  0 ≤ l.state.code → 0 ≤ (l.connectSetup c.setup).state.code →
    (l.connectSetup c.setup).isAddress c ≠ none ∧
    ((l.connectSetup c.setup).isAddress c = some true → c.result ≠ .fails → FitsFdSet l.fd ∧
      if l.fd = (l.connectSetup c.setup).fd then Told c.limited c.result
      else twoSelects c.limited c.other = some c.result.isEstablished)

variable {l l' : Lisa} {c : ConnectCall}

theorem twoSelects_answers (r : ConnectResult) (limited : Bool) (h : r ≠ .fails) :
    twoSelects limited (r.answers limited) = some r.isEstablished ↔ Told limited r := by
  cases r with
  | succeeds => exact iff_of_true rfl trivial
  | fails => exact absurd rfl h
  | established inTime => cases inTime <;> cases limited <;> decide
  | refused inTime => cases inTime <;> cases limited <;> decide
  | timedOut => cases limited <;> decide

theorem connectPost_reports (l : Lisa) (found est : Bool) :
    (est = true → (l.connectPost found).state = .connected) ∧ (¬ est = true → (l.connectPost found).state = .error) ↔
      found = est := by
  cases found <;> cases est <;> simp [connectPost]

theorem connectPre_of_nonneg (hl : 0 ≤ l.state.code) : l.connectPre c =
    if (l.connectSetup c.setup).state.code < 0 then some (l.connectSetup c.setup, none)
    else (l.connectSetup c.setup).connectTo c l.fd := if_neg (Int.not_lt.2 hl)

theorem reports_of_error (l' : Lisa) (h : l.lisaConnect c = some l') (herr : l'.state = .error) (hnot : ¬ l.Established c) :
    l.Reports c :=
  ⟨l', h, fun hest => absurd hest hnot, fun _ => herr⟩

theorem reports_select_iff (hl : 0 ≤ l.state.code) (hs : 0 ≤ (l.connectSetup c.setup).state.code)
    (haddr : (l.connectSetup c.setup).isAddress c = some true) (hres : c.result ≠ .fails) :
    l.Reports c ↔ FitsFdSet l.fd ∧ if l.fd = (l.connectSetup c.setup).fd then Told c.limited c.result
      else twoSelects c.limited c.other = some c.result.isEstablished := by
  have hpre : l.connectPre c = some (l.connectSetup c.setup, some l.fd) := by
    rw [connectPre_of_nonneg hl, if_neg (Int.not_lt.2 hs), connectTo, haddr, Option.map_some, if_pos ⟨rfl, hres⟩]
  have hest : l.Established c ↔ c.result.isEstablished = true := by
    constructor
    · exact fun h => h.2.2.2
    · exact fun h => ⟨hl, hs, haddr, h⟩
  -- the right-hand side says what the two calls of `select` come to
  have htold : (if l.fd = (l.connectSetup c.setup).fd then Told c.limited c.result
      else twoSelects c.limited c.other = some c.result.isEstablished) ↔
      twoSelects c.limited (if l.fd = (l.connectSetup c.setup).fd then c.result.answers c.limited else c.other) =
        some c.result.isEstablished := by
    split
    · exact (twoSelects_answers _ _ hres).symm
    · rfl
  rw [htold, Reports, lisaConnect, hpre, Option.bind_some, hest]
  constructor
  · rintro ⟨l', hcall, hstate⟩
    obtain ⟨call, hsel, hcall⟩ := Option.bind_eq_some_iff.1 hcall
    obtain ⟨found, htwo, rfl⟩ := Option.map_eq_some_iff.1 hcall
    rw [htwo, (connectPost_reports _ found _).1 hstate]
    obtain ⟨s, hadd, -⟩ := Option.map_eq_some_iff.1 hsel
    exact ⟨(FdSet.add_eq_some hadd).1, rfl⟩
  · rintro ⟨hfits, htwo⟩
    refine ⟨(l.connectSetup c.setup).connectPost c.result.isEstablished, ?_, (connectPost_reports _ _ _).2 rfl⟩
    have hsel : selectOne [] l.fd = some { nfds := l.fd + 1, fds := [l.fd] } := by
      rw [selectOne, FdSet.add, if_pos hfits]
      rfl
    show (selectOne [] l.fd).bind _ = _
    rw [hsel, Option.bind_some, htwo, Option.map_some]

/-- `lisa_connect` reports a connection exactly when there is one, if the descriptor that it selects on is the socket,
and the connect is not refused before the time out nor established after it (or the descriptor is another one, which
happens to be ready in the same case). -/
theorem reports_iff (l : Lisa) (c : ConnectCall) : l.Reports c ↔ l.ConnectTold c := by
  by_cases hl : l.state.code < 0
  · have hpre : l.connectPre c = some (l, none) := if_pos hl
    have hcall : l.lisaConnect c = some l := by
      rw [lisaConnect, hpre]
      rfl
    refine iff_of_true (reports_of_error l hcall (code_neg_iff.1 hl) ?_) ?_
    · intro h
      exact absurd h.1 (Int.not_le.2 hl)
    · intro h
      exact absurd h (Int.not_le.2 hl)
  have hpre := connectPre_of_nonneg (c := c) (Int.not_lt.1 hl)
  by_cases hs : (l.connectSetup c.setup).state.code < 0
  · rw [if_pos hs] at hpre
    have hcall : l.lisaConnect c = some (l.connectSetup c.setup) := by
      rw [lisaConnect, hpre]
      rfl
    refine iff_of_true (reports_of_error _ hcall (code_neg_iff.1 hs) ?_) ?_
    · intro h
      exact absurd h.2.1 (Int.not_le.2 hs)
    · intro _ h
      exact absurd h (Int.not_le.2 hs)
  rw [if_neg hs] at hpre
  cases haddr : (l.connectSetup c.setup).isAddress c with
  | none =>
    -- the text of the address is read through `NULL`
    refine iff_of_false ?_ ?_
    · rintro ⟨l', h, -⟩
      rw [lisaConnect, hpre, connectTo, haddr] at h
      cases h
    · intro h
      exact (h (Int.not_lt.1 hl) (Int.not_lt.1 hs)).1 haddr
  | some ok =>
    by_cases hgo : ok = true ∧ c.result ≠ .fails
    · obtain ⟨rfl, hres⟩ := hgo
      rw [reports_select_iff (Int.not_lt.1 hl) (Int.not_lt.1 hs) haddr hres]
      constructor
      · intro h _ _
        exact ⟨by rw [haddr]; nofun, fun _ _ => h⟩
      · intro h
        exact (h (Int.not_lt.1 hl) (Int.not_lt.1 hs)).2 haddr hres
    · have hcall : l.lisaConnect c = some { l.connectSetup c.setup with state := .error } := by
        rw [lisaConnect, hpre, connectTo, haddr, Option.map_some, if_neg hgo]
        rfl
      refine iff_of_true (reports_of_error _ hcall rfl ?_) ?_
      · rintro ⟨-, -, htrue, hest⟩
        refine hgo ⟨Option.some.inj (haddr.symm.trans htrue), ?_⟩
        intro hfails
        rw [hfails] at hest
        cases hest
      · intro _ _
        refine ⟨by rw [haddr]; nofun, ?_⟩
        intro htrue hres
        exact absurd ⟨Option.some.inj (haddr.symm.trans htrue), hres⟩ hgo

/-- The call of `ci_start_client`, and a server that refuses at once -/
theorem not_reports : ¬ ∀ (l : Lisa) (c : ConnectCall), l.Reports c := by
  intro h
  let l : Lisa := { fd := 3, clientFd := 0, clientFds := Mem.fill 0, thisFd := 0, numClients := 0, state := .created,
                    clientState := .uninitialized, type := .tcp, clsvr := .unknown, vsock := false }
  let c : ConnectCall := { addr := some [49, 46, 49, 46, 49, 46, 49], setup := ⟨3, 0, 0, 0⟩, inetPton := 1,
                           result := .refused true, limited := true, other := (.timedOut, .timedOut) }
  have htold := (reports_select_iff (l := l) (c := c) (by decide) (by decide) rfl (by decide)).1 (h l c)
  revert htold
  decide

/-! ### With no other thread, the function with the locks does the same -/

section
variable {β : Type} {E : Stop → Prop} {h : Holder LockName (Shared β)} {found : Bool}

theorem connectOpen_alone (ha : h.Alone) (hh : h.held = [.lisa]) :
    Locked.wp E (Locks.connectOpen (c.returns found)) (fun _ h' => h'.shared.l =
      if c.result = .fails then { h.shared.l with state := .error } else h.shared.l.connectPost found) h := by
  have h0 : ∀ s, h.others 0 s = s := ha 0
  have hfails : (c.returns found).connect < 0 ∧ (c.returns found).inProgress = false ↔ c.result = .fails := by
    cases hr : c.result <;> simp [ConnectCall.returns, hr]
  rw [Locks.connectOpen, Locked.wp_ite]
  split
  · next hf =>
    rw [hfails] at hf
    simp [hf, hh]
  · next hf =>
    rw [hfails] at hf
    cases found <;> simp [ConnectCall.returns, connectPost, hf, hh, h0]

theorem connectTo_alone {ok : Bool} (ha : h.Alone) (hh : h.held = [.lisa]) (haddr : h.shared.l.isAddress c = some ok) :
    Locked.wp E (Locks.connectTo c.addr (c.returns found)) (fun _ h' => h'.shared.l =
      if ok = true ∧ c.result ≠ .fails then h.shared.l.connectPost found
      else { h.shared.l with state := .error }) h := by
  have hopen : Locked.wp E (Locks.connectOpen (c.returns found)) _ h := connectOpen_alone ha hh
  have herror : Locked.wp E (Locks.setState .error)
      (fun _ h' => h'.shared.l = { h.shared.l with state := .error }) h := rfl
  -- an address that is one goes on to `connect`
  have hgo : ok = true → Locked.wp E (Locks.connectOpen (c.returns found)) (fun _ h' => h'.shared.l =
      if ok = true ∧ c.result ≠ .fails then h.shared.l.connectPost found
      else { h.shared.l with state := .error }) h := by
    rintro rfl
    by_cases hf : c.result = .fails
    · simpa [hf] using hopen
    · simpa [hf] using hopen
  unfold Locks.connectTo
  rw [Locked.wp_bind, Locks.wp_lisa, Locked.wp_ite]
  unfold isAddress at haddr
  cases ha : c.addr with
  | none =>
    rw [ha] at haddr
    obtain ⟨hv, rfl⟩ : ¬ h.shared.l.vsock = true ∧ ok = true := by
      cases hv : h.shared.l.vsock <;> simp_all
    rw [if_neg hv]
    exact hgo rfl
  | some addr =>
    rw [ha] at haddr
    have hok := Option.some.inj haddr
    split
    · next hv =>
      rw [if_pos hv] at hok
      dsimp only
      rw [hok, Locked.wp_ite]
      cases ok with
      | true => exact hgo rfl
      | false => exact herror
    · next hv =>
      rw [if_neg hv] at hok
      have hpton : (c.returns found).inetPton ≤ 0 ↔ ok = false := by
        rw [← hok, decide_eq_false_iff_not, Int.not_lt]
        rfl
      dsimp only
      rw [Locked.wp_ite]
      cases ok with
      | true =>
        rw [if_neg (by rw [hpton]; decide)]
        exact hgo rfl
      | false =>
        rw [if_pos (hpton.2 rfl)]
        exact herror

theorem connectTo_after {thisFd : Option Int} (fd : Int) (ha : h.Alone) (hh : h.held = [.lisa])
    (hto : h.shared.l.connectTo c fd = some (l', thisFd)) :
    Locked.wp E (Locks.connectTo c.addr (c.returns found))
      (fun _ h' => h'.shared.l = if thisFd = none then l' else l'.connectPost found) h := by
  obtain ⟨ok, haddr, heq⟩ := Option.map_eq_some_iff.1 hto
  refine Locked.wp_mono (fun _ => id) (fun _ h' hq => ?_) (connectTo_alone ha hh haddr)
  split at heq
  · next hgo =>
    cases heq
    rw [hq, if_pos hgo]
    rfl
  · next hstop =>
    cases heq
    rw [hq, if_neg hstop]
    rfl

theorem lisaConnect_alone {thisFd : Option Int} (ha : h.Alone) (hh : h.held = [])
    (hpre : h.shared.l.connectPre c = some (l', thisFd)) :
    Locked.wp E (Locks.lisaConnect c.addr (c.returns found))
      (fun _ h' => h'.shared.l = if thisFd = none then l' else l'.connectPost found) h := by
  have h0 : h.others 0 h.shared = h.shared := ha 0 _
  have hheld : (h.acquire .lisa).held = [.lisa] := by simp [hh]
  have halone : (h.acquire .lisa).Alone := fun n s => ha (n + 1) s
  have hacq : (h.acquire .lisa).shared = h.shared := h0
  simp only [Locks.lisaConnect, Locked.wp_bind, Locked.wp_lock, Locks.wp_lisa, Locks.wp_setLisa, Locked.wp_ite, hh,
    List.not_mem_nil, if_false, Holder.map_shared, hacq]
  split
  · next hl =>
    rw [connectPre, if_pos hl] at hpre
    cases hpre
    simp [hh, h0]
  · next hl =>
    rw [connectPre_of_nonneg (Int.not_lt.1 hl)] at hpre
    split
    · next hc =>
      have hsetup : h.shared.l.connectSetup c.setup =
          ({ h.shared.l with clsvr := .client } : Lisa).lisaSetupTcp c.setup := if_pos hc
      split
      · next hs =>
        have hs' : (h.shared.l.connectSetup c.setup).state.code < 0 := by
          rw [hsetup]
          exact hs
        rw [if_pos hs'] at hpre
        cases hpre
        rw [hsetup]
        simp [hh, h0, ConnectCall.returns]
      · next hs =>
        have hs' : ¬ (h.shared.l.connectSetup c.setup).state.code < 0 := by
          rw [hsetup]
          exact hs
        rw [if_neg hs', hsetup] at hpre
        refine connectTo_after (h := ((h.acquire .lisa).map _).map _) h.shared.l.fd halone hheld ?_
        simp only [Holder.map_shared, hacq]
        exact hpre
    · next hc =>
      have hsetup : h.shared.l.connectSetup c.setup = { h.shared.l with clsvr := .client } := if_neg hc
      rw [hsetup, if_neg hl] at hpre
      refine connectTo_after (h := (h.acquire .lisa).map _) h.shared.l.fd halone hheld ?_
      simp only [Holder.map_shared, hacq]
      exact hpre

end

end Lisa
end WlanxVms
