import WlanxVms.Lib.Machine
import WlanxVms.Lisa.Send

/-!
# The error state of a client's lisa (`lisa.c`, `lisa.h`)

`Tube` is a client's lisa with the calls that the sender and the receiver thread have between their locked
sections: `lisa_send` holds a private copy of the state, and so does `lisa_recv`. Each call stores a state
when it ends, whatever the other has stored meanwhile.
-/

namespace WlanxVms

/-- How `lisa_recv` of a client leaves its first section. -/
inductive ClientRecvPre where
  | returns (rc : Int)
  | selects (thisFd : Int) (thisState : LisaState)

/-- What `select` says in `lisa_recv`, and what `recv` or `recvfrom` returns. -/
inductive RecvOutcome where
  | selectFails
  | timeout
  | ready (rc : Int)

namespace Lisa
variable {l : Lisa} {msg : List UInt8}

/-! ### `lisa_recv` of a client -/

def clientRecvPre (l : Lisa) : ClientRecvPre :=
  if l.state.code < 0 then .returns (-1)
  else if l.state.code < LisaState.connected.code ∨ l.clsvr = .unknown then .returns 0
  else .selects l.fd l.state

/-- `lisa_recv` of a client after the `select`, with its result. -/
def clientRecvPost (l : Lisa) (thisState : LisaState) : RecvOutcome → Lisa × Int
  | .selectFails => ({ l with state := .error }, -1)
  | .timeout => ({ l with state := .timeout }, 0)
  | .ready rc =>
    if l.fd ≠ 0 then
      if l.type = .tcp then
        ({ l with state := if rc < 0 then .error else if rc = 0 then .closed else .gotData }, rc)
      else ({ l with state := .gotData }, rc)
    else ({ l with state := thisState }, 1)

theorem clsvr_clientRecvPost (l : Lisa) (thisState : LisaState) (o : RecvOutcome) :
    (l.clientRecvPost thisState o).1.clsvr = l.clsvr := by
  cases o with
  | selectFails => rfl
  | timeout => rfl
  | ready rc =>
    simp only [clientRecvPost]
    split_ifs <;> rfl

/-! ### When a call fails -/

/-- The last `select` of the sending loop did not set the descriptor, or the results of `send` add up to a
negative number; for UDP, `sendto` failed. -/
def SendFails (c : SendCall) (outs : List SendOutcome) : Prop :=
  if c.thisType = .tcp then
    outs = [] ∧ c.thisState = .error ∨ outs.getLast?.map SendOutcome.isSet = some false ∨
      asInt (u32 (outs.map SendOutcome.result).sum) < 0
  else (outs.map SendOutcome.result).sum < 0

/-- `select` failed, or `recv`; without a descriptor, the call began in error. -/
def RecvFails (l : Lisa) (thisState : LisaState) : RecvOutcome → Prop
  | .selectFails => True
  | .timeout => False
  | .ready rc => if l.fd ≠ 0 then l.type = .tcp ∧ rc < 0 else thisState = .error

instance (c : SendCall) (outs : List SendOutcome) : Decidable (SendFails c outs) := by
  have : Decidable (outs = []) := decidable_of_iff _ List.isEmpty_iff
  unfold SendFails; infer_instance

instance (l : Lisa) (thisState : LisaState) : (o : RecvOutcome) → Decidable (RecvFails l thisState o)
  | .selectFails => .isTrue trivial
  | .timeout => .isFalse id
  | .ready _ => inferInstanceAs (Decidable (ite ..))

theorem sendLoop_error_iff {outs : List SendOutcome} {s s' : Sending} (h : sendLoop msg s outs = some s') :
    s'.thisState = .error ↔
      outs = [] ∧ s.thisState = .error ∨ outs.getLast?.map SendOutcome.isSet = some false := by
  induction outs generalizing s with
  | nil =>
    obtain ⟨-, h⟩ := Option.ite_none_left_eq_some.1 h
    cases h
    simp
  | cons o os ih =>
    obtain ⟨-, h⟩ := Option.ite_none_right_eq_some.1 h
    obtain ⟨s₁, hr, h⟩ := Option.bind_eq_some_iff.1 h
    have hround : s₁.thisState = .error ↔ o.isSet = false := by
      cases o with
      | notReady => cases hr; simp [SendOutcome.isSet]
      | notSet => cases hr; simp [SendOutcome.isSet]
      | sends rc =>
        obtain ⟨-, hr⟩ := Option.ite_none_right_eq_some.1 hr
        cases hr
        simp [SendOutcome.isSet]
    rw [ih h]
    cases os with
    | nil => simp [hround]
    | cons o' os => simp [List.getLast?_cons_cons]

theorem sendLoop_bytesSent {outs : List SendOutcome} {s s' : Sending} (hs : s.bytesSent < 2 ^ 32)
    (h : sendLoop msg s outs = some s') : s'.bytesSent = u32 (s.bytesSent + (outs.map SendOutcome.result).sum) := by
  induction outs generalizing s with
  | nil =>
    obtain ⟨-, h⟩ := Option.ite_none_left_eq_some.1 h
    cases h
    rw [List.map_nil, List.sum_nil, Int.add_zero, u32_of_lt hs]
  | cons o os ih =>
    obtain ⟨-, h⟩ := Option.ite_none_right_eq_some.1 h
    obtain ⟨s₁, hr, h⟩ := Option.bind_eq_some_iff.1 h
    have hround : s₁.bytesSent = u32 (s.bytesSent + o.result) := by
      cases o with
      | notReady => cases hr; exact (u32_of_lt hs).symm
      | notSet => cases hr; exact (u32_of_lt hs).symm
      | sends rc =>
        obtain ⟨-, hr⟩ := Option.ite_none_right_eq_some.1 hr
        cases hr
        rfl
    have hlt : s₁.bytesSent < 2 ^ 32 := by rw [hround]; unfold u32; omega
    rw [ih hlt h, hround, List.map_cons, List.sum_cons]
    unfold u32; omega

/-- `lisa_send` stores the error state when it fails, and only then. -/
theorem sendBody_error_iff {c : SendCall} {outs : List SendOutcome} {r : SendResult} (h : sendBody c msg outs = some r) :
    r.thisState = .error ↔ SendFails c outs := by
  unfold sendBody at h
  unfold SendFails
  split at h
  · next htcp =>
    obtain ⟨s, hs, rfl⟩ := Option.map_eq_some_iff.1 h
    have hstate := sendLoop_error_iff hs
    have hbytes : s.bytesSent = u32 (outs.map SendOutcome.result).sum := by
      simpa using sendLoop_bytesSent (Nat.two_pow_pos 32) hs
    rw [if_pos htcp, ← or_assoc, ← hstate, ← hbytes]
    simp only
    split
    · next hneg => exact ⟨fun _ => .inr hneg, fun _ => rfl⟩
    · next hpos => exact ⟨.inl, fun h => h.resolve_right hpos⟩
  · next htcp =>
    rw [if_neg htcp]
    split at h
    · next rc =>
      obtain ⟨-, h⟩ := Option.ite_none_right_eq_some.1 h
      cases h
      by_cases hneg : rc < 0 <;> simp [SendOutcome.result, hneg]
    · cases h

theorem clientRecvPost_error_iff (l : Lisa) (thisState : LisaState) (o : RecvOutcome) :
    (l.clientRecvPost thisState o).1.state = .error ↔ RecvFails l thisState o := by
  cases o with
  | selectFails => simp [clientRecvPost, RecvFails]
  | timeout => simp [clientRecvPost, RecvFails]
  | ready rc =>
    simp only [clientRecvPost, RecvFails]
    by_cases hfd : l.fd ≠ 0
    · rw [if_pos hfd, if_pos hfd]
      by_cases htcp : l.type = .tcp
      · rw [if_pos htcp]
        by_cases hneg : rc < 0
        · simp [htcp, hneg]
        · by_cases hz : rc = 0 <;> simp [hneg, hz]
      · simp [htcp]
    · rw [if_neg hfd, if_neg hfd]

end Lisa

/-! ### The two threads -/

/-- A client's lisa, the `lisa_send` under way with its message, and the private state of the `lisa_recv`
under way. -/
structure Tube where
  l : Lisa
  client : l.clsvr = .client
  sender : Option (SendCall × List UInt8)
  receiver : Option LisaState

inductive TubeAct where
  | sendPre (msg : List UInt8)
  | sendPost (outs : List SendOutcome)
  | recvPre
  | recvPost (o : RecvOutcome)

namespace Tube
open Lisa

def sendPre (s : Tube) (msg : List UInt8) : Option Tube :=
  match s.sender with
  | none => some { s with sender := s.l.sendPre.map fun c => (c, msg) }
  | some _ => none

def sendPost (s : Tube) (outs : List SendOutcome) : Option Tube :=
  match s.sender with
  | none => none
  | some (c, msg) => (sendBody c msg outs).map fun r =>
      { s with l := s.l.sendPost r.thisState, client := (sendPost_clsvr ..).trans s.client, sender := none }

def recvPre (s : Tube) : Option Tube :=
  match s.receiver with
  | none => match s.l.clientRecvPre with
    | .returns _ => some s
    | .selects _ thisState => some { s with receiver := some thisState }
  | some _ => none

def recvPost (s : Tube) (o : RecvOutcome) : Option Tube :=
  match s.receiver with
  | none => none
  | some thisState =>
    some { s with l := (s.l.clientRecvPost thisState o).1, client := (clsvr_clientRecvPost ..).trans s.client,
                  receiver := none }

def step (s : Tube) : TubeAct → Option Tube
  | .sendPre msg => s.sendPre msg
  | .sendPost outs => s.sendPost outs
  | .recvPre => s.recvPre
  | .recvPost o => s.recvPost o

def InError (s : Tube) : Prop := s.l.state = .error

/-- A call that ends while the lisa is in error has failed, too. -/
def Harmless (s : Tube) : TubeAct → Prop
  | .sendPost outs => ∀ call ∈ s.sender, s.l.state = .error → SendFails call.1 outs
  | .recvPost o => ∀ thisState ∈ s.receiver, s.l.state = .error → RecvFails s.l thisState o
  | _ => True

instance (s : Tube) (a : TubeAct) : Decidable (Harmless s a) := by
  unfold Harmless; split <;> infer_instance

variable {s t : Tube}

theorem shortCircuits (h : s.InError) : s.l.sendPre = none ∧ s.l.clientRecvPre = .returns (-1) := by
  unfold InError at h
  constructor
  · simp [Lisa.sendPre, h, LisaState.code]
  · simp [clientRecvPre, h, LisaState.code]

theorem harmless_iff {a : TubeAct} (hs : s.step a = some t) : Harmless s a ↔ (s.InError → t.InError) := by
  cases a with
  | sendPre msg =>
    simp only [step, Tube.sendPre] at hs
    split at hs <;> cases hs
    exact ⟨fun _ => id, fun _ => trivial⟩
  | sendPost outs =>
    simp only [step, Tube.sendPost] at hs
    split at hs
    · cases hs
    · next c msg hsender =>
      obtain ⟨r, hbody, rfl⟩ := Option.map_eq_some_iff.1 hs
      have hfails := sendBody_error_iff hbody
      have hstored : s.InError → (s.l.sendPost r.thisState).state = r.thisState := by
        intro herr
        rw [Lisa.sendPost, if_pos]
        rw [show s.l.state = .error from herr]
        nofun
      constructor
      · intro hG herr
        exact (hstored herr).trans (hfails.2 (hG (c, msg) hsender herr))
      · intro hkeeps call hcall herr
        rw [hsender, Option.mem_some_iff] at hcall
        subst hcall
        exact hfails.1 ((hstored herr).symm.trans (hkeeps herr))
  | recvPre =>
    simp only [step, Tube.recvPre] at hs
    split at hs
    · split at hs <;> cases hs <;> exact ⟨fun _ => id, fun _ => trivial⟩
    · cases hs
  | recvPost o =>
    simp only [step, Tube.recvPost] at hs
    split at hs
    · cases hs
    · next thisState hreceiver =>
      cases hs
      have hfails := clientRecvPost_error_iff s.l thisState o
      constructor
      · intro hG herr
        exact hfails.2 (hG thisState hreceiver herr)
      · intro hkeeps st hst herr
        rw [hreceiver, Option.mem_some_iff] at hst
        subst hst
        exact hfails.1 (hkeeps herr)

/-- In a run of the two threads, the error state stays exactly if each call that was under way when it was
stored fails. -/
theorem error_stays_iff (s₀ s : Tube) (acts : List TubeAct) (h : run step AnyStep s₀ acts = some s) :
    Stays step InError s₀ acts ↔ Path step Harmless s₀ acts s :=
  stays_iff (fun _ _ _ => harmless_iff) h

/-- A client after `lisa_connect` -/
def connected : Tube :=
  { l := ⟨5, 0, Mem.fill 0, 0, 0, .connected, .uninitialized, .tcp, .client, true⟩, client := rfl, sender := none,
    receiver := none }

/-- The `send` fails while `lisa_recv` waits, and so does its `select`. -/
theorem error_stays_both : ∃ s,
    run step AnyStep connected [.recvPre, .sendPre [1], .sendPost [.sends (-1)], .recvPost .selectFails] = some s ∧
    s.l.state = .error ∧
    Stays step InError connected [.recvPre, .sendPre [1], .sendPost [.sends (-1)], .recvPost .selectFails] := by
  obtain ⟨s, hpath, herr⟩ : ∃ s, Path step Harmless connected
      [.recvPre, .sendPre [1], .sendPost [.sends (-1)], .recvPost .selectFails] s ∧ s.l.state = .error :=
    ⟨_, .of_run (by decide +kernel), by decide +kernel⟩
  exact ⟨s, hpath.run_eq, herr, (error_stays_iff connected s _ hpath.run_eq).2 hpath⟩

/-- The `send` fails while `lisa_recv` waits, which then times out. -/
theorem not_error_stays : ¬ ∀ (s₀ s : Tube) (acts : List TubeAct), run step AnyStep s₀ acts = some s →
    Stays step InError s₀ acts := by
  intro h
  have hstays := h connected _ [.recvPre, .sendPre [1], .sendPost [.sends (-1)], .recvPost .timeout] rfl
  have herr := hstays [.recvPre, .sendPre [1], .sendPost [.sends (-1)]] [.recvPost .timeout] _ _
    List.prefix_rfl rfl rfl rfl
  cases herr

end Tube
end WlanxVms
