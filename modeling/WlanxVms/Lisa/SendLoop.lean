import WlanxVms.Lisa.Send

/-!
# The loop of `lisa_send`

`lisaSend_exact_iff` is about the bytes of one call: `bytes_sent` is both the count and the offset of the
next `send`, and a failure takes one from it, which ends the loop only at offset 0. `sendLoopSelect` adds
the descriptor set: it is filled before the loop, and a time out clears it for good.
-/

namespace WlanxVms

/-- A time out, a failed `send`, or one that takes a byte at least -/
def SendOutcome.Usual : SendOutcome → Prop
  | .notReady => True
  | .notSet => False
  | .sends rc => rc = -1 ∨ 1 ≤ rc

instance : (o : SendOutcome) → Decidable o.Usual
  | .notReady => .isTrue trivial
  | .notSet => .isFalse id
  | .sends _ => inferInstanceAs (Decidable (_ ∨ _))

namespace Lisa
variable {msg : List UInt8} {s s' : Sending} {o : SendOutcome} {outs pre post : List SendOutcome}

/-- The rounds with the outcomes `outs`, whatever the condition of the loop says -/
def sendRounds (msg : List UInt8) (s : Sending) : List SendOutcome → Option Sending
  | [] => some s
  | o :: os => (sendRound msg s o).bind fun s => sendRounds msg s os

/-- Every `send` begins where the bytes taken so far end, so that these are a prefix of the message and none
is taken twice. A result that is not negative counts them, and a failed `send` is reported. -/
structure SendsExactly (l : Lisa) (msg : List UInt8) (outs : List SendOutcome) (l' : Lisa) (rc : Int)
    (took : List UInt8) : Prop where
  offset : ∀ pre r post st s, outs = pre ++ .sends r :: post →
    sendRounds msg { bytesSent := 0, thisState := st, took := [] } pre = some s →
    s.bytesSent = (pre.map SendOutcome.accepted).sum
  le : (outs.map SendOutcome.accepted).sum ≤ msg.length
  took : took = msg.take (outs.map SendOutcome.accepted).sum
  count : 0 ≤ rc → rc = (outs.map SendOutcome.accepted).sum
  failure : .sends (-1) ∈ outs → rc < 0 ∧ l' = l.sendPost .error

theorem sendRounds_append : sendRounds msg s (pre ++ post) = (sendRounds msg s pre).bind fun s => sendRounds msg s post := by
  induction pre generalizing s with
  | nil => rfl
  | cons o os ih =>
    rw [List.cons_append, sendRounds, sendRounds, Option.bind_assoc]
    simp only [ih]

theorem sendLoop_append (h : sendLoop msg s (pre ++ post) = some s') :
    ∃ s₁, sendRounds msg s pre = some s₁ ∧ sendLoop msg s₁ post = some s' := by
  induction pre generalizing s with
  | nil => exact ⟨s, rfl, h⟩
  | cons o os ih =>
    obtain ⟨-, h⟩ := Option.ite_none_right_eq_some.1 h
    obtain ⟨s₂, hr, h⟩ := Option.bind_eq_some_iff.1 h
    obtain ⟨s₁, hs₁, h⟩ := ih h
    exact ⟨s₁, by rw [sendRounds, hr]; exact hs₁, h⟩

theorem Took.rounds (hlen : msg.length < 2 ^ 32) (h : Took msg s) (hok : outs.all SendOutcome.ok = true)
    (hs : sendRounds msg s outs = some s') :
    Took msg s' ∧ s'.bytesSent = s.bytesSent + (outs.map SendOutcome.accepted).sum := by
  induction outs generalizing s with
  | nil =>
    cases hs
    exact ⟨h, rfl⟩
  | cons o os ih =>
    obtain ⟨s₁, hr, hs⟩ := Option.bind_eq_some_iff.1 hs
    rw [List.all_cons, Bool.and_eq_true] at hok
    obtain ⟨h₁, hb, -⟩ := h.round hlen hok.1 hr
    obtain ⟨h', hb'⟩ := ih h₁ hok.2 hs
    refine ⟨h', ?_⟩
    rw [hb', hb, List.map_cons, List.sum_cons, Nat.add_assoc]

theorem Took.init (msg : List UInt8) (st : LisaState) : Took msg { bytesSent := 0, thisState := st, took := [] } :=
  ⟨Nat.zero_le _, rfl⟩

theorem firstFailure (h : ∀ o ∈ outs, o.Usual) :
    outs.all SendOutcome.ok = true ∨ ∃ pre post, outs = pre ++ .sends (-1) :: post ∧ pre.all SendOutcome.ok = true := by
  induction outs with
  | nil => exact .inl rfl
  | cons o os ih =>
    have ho := h o List.mem_cons_self
    by_cases hok : o.ok = true
    · rcases ih fun o ho => h o (List.mem_cons_of_mem _ ho) with hall | ⟨pre, post, rfl, hpre⟩
      · exact .inl (by rw [List.all_cons, hok, hall]; rfl)
      · exact .inr ⟨o :: pre, post, rfl, by rw [List.all_cons, hok, hpre]; rfl⟩
    · cases o with
      | notReady => exact absurd rfl hok
      | notSet => exact ho.elim
      | sends rc =>
        rcases ho with rfl | hrc
        · exact .inr ⟨[], os, rfl, rfl⟩
        · exact absurd (decide_eq_true (show 0 ≤ rc by omega)) hok

theorem sendRound_sends {rc : Int} (h : sendRound msg s (.sends rc) = some s') :
    s' = { bytesSent := u32 (s.bytesSent + rc), thisState := .sentData,
           took := s.took ++ (msg.drop s.bytesSent).take rc.toNat } :=
  (Option.some.inj (Option.ite_none_right_eq_some.1 h).2).symm

theorem sendLoop_fails (hlen : msg.length < 2 ^ 32) (hb : s.bytesSent = 0)
    (h : sendLoop msg s (.sends (-1) :: post) = some s') :
    post = [] ∧ s'.bytesSent = 4294967295 ∧ s'.took = s.took := by
  obtain ⟨-, h⟩ := Option.ite_none_right_eq_some.1 h
  obtain ⟨s₁, hr, h⟩ := Option.bind_eq_some_iff.1 h
  have hs₁ := sendRound_sends hr
  have hb₁ : s₁.bytesSent = 4294967295 := by
    rw [hs₁]
    show u32 ((s.bytesSent : Int) + -1) = _
    rw [hb]
    rfl
  have htook : s₁.took = s.took := by
    rw [hs₁]
    exact List.append_nil _
  have hdone : ¬(s₁.bytesSent < msg.length ∧ s₁.thisState ≠ .error) := fun hc => by omega
  obtain rfl := sendLoop_done hdone h
  refine ⟨?_, hb₁, htook⟩
  cases post with
  | nil => rfl
  | cons o os => exact absurd (Option.ite_none_right_eq_some.1 h).1 hdone

theorem sendLoop_next (h : ∀ o ∈ outs, o.Usual) (hlt : s.bytesSent < msg.length) (hst : s.thisState ≠ .error)
    (hs : sendLoop msg s outs = some s') :
    ∃ pre r post s₁, outs = pre ++ .sends r :: post ∧ sendRounds msg s pre = some s₁ ∧
      s₁.bytesSent = s.bytesSent ∧ (pre.map SendOutcome.accepted).sum = 0 := by
  induction outs generalizing s with
  | nil =>
    obtain ⟨hend, -⟩ := Option.ite_none_left_eq_some.1 hs
    exact absurd ⟨hlt, hst⟩ hend
  | cons o os ih =>
    obtain ⟨-, hs⟩ := Option.ite_none_right_eq_some.1 hs
    obtain ⟨s₁, hr, hs⟩ := Option.bind_eq_some_iff.1 hs
    cases o with
    | notReady =>
      cases hr
      have hos : ∀ o ∈ os, o.Usual := fun o ho => h o (List.mem_cons_of_mem _ ho)
      obtain ⟨pre, r, post, s₂, rfl, hs₂, hb, hsum⟩ := ih (s := { s with thisState := .timeout }) hos hlt nofun hs
      exact ⟨.notReady :: pre, r, post, s₂, rfl, hs₂, hb, by rw [List.map_cons, List.sum_cons, hsum]; rfl⟩
    | notSet => exact (h _ List.mem_cons_self).elim
    | sends r => exact ⟨[], r, os, s, rfl, rfl, rfl, rfl⟩

/-- A `send` fails only before a byte was taken. -/
def FailsFirst (outs : List SendOutcome) : Prop :=
  ∀ pre post, outs = pre ++ .sends (-1) :: post → (pre.map SendOutcome.accepted).sum = 0

/-- How a loop ends in which a `send` fails at most first: without a failure, or with it -/
theorem FailsFirst.loop {st : LisaState} (hfirst : FailsFirst outs) (hlen : msg.length < 2 ^ 32)
    (husual : ∀ o ∈ outs, o.Usual)
    (h : sendLoop msg { bytesSent := 0, thisState := st, took := [] } outs = some s') :
    outs.all SendOutcome.ok = true ∧ Took msg s' ∧ s'.bytesSent = (outs.map SendOutcome.accepted).sum ∨
      ∃ pre, outs = pre ++ [.sends (-1)] ∧ pre.all SendOutcome.ok = true ∧
        (pre.map SendOutcome.accepted).sum = 0 ∧ s'.bytesSent = 4294967295 ∧ s'.took = [] := by
  rcases firstFailure husual with hall | ⟨pre, post, rfl, hpre⟩
  · obtain ⟨htook, hb, -⟩ := (Took.init msg st).loop hlen hall h
    exact .inl ⟨hall, htook, hb.trans (Nat.zero_add _)⟩
  · have hzero := hfirst pre post rfl
    obtain ⟨s₁, hs₁, hloop⟩ := sendLoop_append h
    obtain ⟨htook, hb⟩ := (Took.init msg st).rounds hlen hpre hs₁
    rw [hzero] at hb
    obtain ⟨rfl, hend, htook'⟩ := sendLoop_fails hlen hb hloop
    refine .inr ⟨pre, rfl, hpre, hzero, hend, ?_⟩
    rw [htook', htook.took, hb, List.take_zero]

theorem FailsFirst.ok_before {st : LisaState} {r : Int} (hfirst : FailsFirst outs) (hlen : msg.length < 2 ^ 32)
    (husual : ∀ o ∈ outs, o.Usual)
    (h : sendLoop msg { bytesSent := 0, thisState := st, took := [] } outs = some s')
    (hsplit : outs = pre ++ .sends r :: post) : pre.all SendOutcome.ok = true := by
  rcases hfirst.loop hlen husual h with ⟨hall, -, -⟩ | ⟨pre', heq, hpre', -, -, -⟩
  · rw [hsplit, List.all_append, Bool.and_eq_true] at hall
    exact hall.1
  · have hdrop := congrArg List.dropLast (heq.symm.trans hsplit)
    rw [List.dropLast_concat, List.dropLast_append_of_ne_nil (by simp)] at hdrop
    rw [hdrop, List.all_append, Bool.and_eq_true] at hpre'
    exact hpre'.1

theorem lisaSend_tcp {l l' : Lisa} {rc : Int} {took : List UInt8} (htcp : l.type = .tcp)
    (h : l.lisaSend msg outs = some (l', rc, took)) :
    outs = [] ∧ l' = l ∧ rc = -1 ∧ took = [] ∨
      ∃ st s', sendLoop msg { bytesSent := 0, thisState := st, took := [] } outs = some s' ∧
        rc = asInt s'.bytesSent ∧ took = s'.took ∧ (rc < 0 → l' = l.sendPost .error) := by
  unfold lisaSend at h
  split at h
  · obtain ⟨hnil, h⟩ := Option.ite_none_right_eq_some.1 h
    cases h
    exact .inl ⟨List.isEmpty_iff.1 hnil, rfl, rfl, rfl⟩
  · next c hpre =>
    obtain ⟨r, hbody, h⟩ := Option.map_eq_some_iff.1 h
    cases h
    have htype : c.thisType = .tcp := (sendPre_call hpre).1.trans htcp
    unfold sendBody at hbody
    rw [if_pos htype] at hbody
    obtain ⟨s', hloop, rfl⟩ := Option.map_eq_some_iff.1 hbody
    refine .inr ⟨c.thisState, s', hloop, rfl, rfl, fun hrc => ?_⟩
    simp only at hrc
    simp only [if_pos hrc]

theorem FailsFirst.sendsExactly {l l' : Lisa} {rc : Int} {took : List UInt8} (hfirst : FailsFirst outs)
    (hlen : msg.length < 2 ^ 32) (husual : ∀ o ∈ outs, o.Usual) (htcp : l.type = .tcp)
    (h : l.lisaSend msg outs = some (l', rc, took)) : SendsExactly l msg outs l' rc took := by
  rcases lisaSend_tcp htcp h with ⟨rfl, rfl, rfl, rfl⟩ | ⟨st, s', hloop, rfl, rfl, herr⟩
  · refine ⟨fun pre r post st s hsplit => ?_, Nat.zero_le _, rfl, nofun, nofun⟩
    simp at hsplit
  · have hoffset : ∀ pre r post st s, outs = pre ++ .sends r :: post →
        sendRounds msg { bytesSent := 0, thisState := st, took := [] } pre = some s →
        s.bytesSent = (pre.map SendOutcome.accepted).sum := by
      intro pre r post st s hsplit hs
      have hok := hfirst.ok_before hlen husual hloop hsplit
      exact ((Took.init msg st).rounds hlen hok hs).2.trans (Nat.zero_add _)
    rcases hfirst.loop hlen husual hloop with ⟨hall, htook, hb⟩ | ⟨pre, rfl, hpre, hzero, hb, htook⟩
    · refine ⟨hoffset, hb ▸ htook.bytesSent, hb ▸ htook.took, fun hrc => ?_, fun hfail => ?_⟩
      · have hle := htook.bytesSent
        rw [← hb]
        unfold asInt at hrc ⊢
        omega
      · exact absurd (List.all_eq_true.1 hall _ hfail) (by decide)
    · have hsum : ((pre ++ [SendOutcome.sends (-1)]).map SendOutcome.accepted).sum = 0 := by
        rw [List.map_append, List.sum_append, hzero]
        rfl
      have hrc : asInt s'.bytesSent = -1 := by rw [hb]; rfl
      refine ⟨hoffset, ?_, ?_, fun hnonneg => ?_, fun _ => ⟨?_, herr ?_⟩⟩
      · rw [hsum]
        exact Nat.zero_le _
      · rw [hsum, htook, List.take_zero]
      · omega
      · omega
      · omega

/-- A failure after a byte was taken is followed by a `send` at the offset before that byte's end. -/
theorem SendsExactly.failsFirst {l l' : Lisa} {rc : Int} {took : List UInt8}
    (hexact : SendsExactly l msg outs l' rc took) (hlen : msg.length < 2 ^ 32) (husual : ∀ o ∈ outs, o.Usual)
    (htcp : l.type = .tcp) (h : l.lisaSend msg outs = some (l', rc, took)) : FailsFirst outs := by
  intro pre post hsplit
  refine Decidable.by_contra fun hne => ?_
  rcases lisaSend_tcp htcp h with ⟨rfl, -, -, -⟩ | ⟨st, s', hloop, -, -, -⟩
  · simp at hsplit
  · rw [hsplit] at hloop
    obtain ⟨s₁, hs₁, hloop⟩ := sendLoop_append hloop
    have hb₁ := hexact.offset pre (-1) post st s₁ hsplit hs₁
    obtain ⟨⟨hlt, -⟩, hloop⟩ := Option.ite_none_right_eq_some.1 hloop
    obtain ⟨s₂, hr, hloop⟩ := Option.bind_eq_some_iff.1 hloop
    have hs₂ := sendRound_sends hr
    have hb₂ : s₂.bytesSent = s₁.bytesSent - 1 := by
      rw [hs₂]
      show u32 ((s₁.bytesSent : Int) + -1) = _
      unfold u32
      omega
    have husual' : ∀ o ∈ post, o.Usual := fun o ho => husual o (by rw [hsplit]; simp [ho])
    obtain ⟨pre', r, post', s₃, rfl, hs₃, hb₃, hsum⟩ :=
      sendLoop_next husual' (by omega) (by rw [hs₂]; nofun) hloop
    have hrounds : sendRounds msg { bytesSent := 0, thisState := st, took := [] } (pre ++ .sends (-1) :: pre') = some s₃ := by
      rw [sendRounds_append, hs₁, Option.bind_some, sendRounds, hr]
      exact hs₃
    have hb₃' := hexact.offset (pre ++ .sends (-1) :: pre') r post' st s₃ (by rw [hsplit]; simp) hrounds
    rw [List.map_append, List.sum_append, List.map_cons, List.sum_cons, hsum] at hb₃'
    change _ = _ + (0 + 0) at hb₃'
    omega

/-- The sends of a call are exact if and only if none fails after a byte was taken. -/
theorem lisaSend_exact_iff (l l' : Lisa) (msg : List UInt8) (outs : List SendOutcome) (rc : Int) (took : List UInt8)
    (htcp : l.type = .tcp) (hlen : msg.length < 2 ^ 32) (husual : ∀ o ∈ outs, o.Usual)
    (h : l.lisaSend msg outs = some (l', rc, took)) :
    SendsExactly l msg outs l' rc took ↔ FailsFirst outs :=
  ⟨fun hexact => hexact.failsFirst hlen husual htcp h, fun hfirst => hfirst.sendsExactly hlen husual htcp h⟩

/-- A client on a TCP connection -/
def connectedClient : Lisa :=
  { fd := 3, clientFd := 0, clientFds := Mem.fill 0, thisFd := 0, numClients := 0, state := .connected,
    clientState := .uninitialized, type := .tcp, clsvr := .client, vsock := false }

theorem lisaSend_exact_iff_partial :
    SendsExactly connectedClient [1, 2, 3] [.notReady, .sends 2, .sends 1] (connectedClient.sendPost .sentData) 3 [1, 2, 3] ↔
      FailsFirst [.notReady, .sends 2, .sends 1] :=
  lisaSend_exact_iff connectedClient _ [1, 2, 3] _ _ _ rfl (by decide) (by decide) rfl

/-- A failure after the first of two bytes: that byte is sent again, and the call returns 2. -/
theorem not_lisaSend_exact :
    connectedClient.lisaSend [1, 2] [.sends 1, .sends (-1), .sends 2] =
      some (connectedClient.sendPost .sentData, 2, [1, 1, 2]) ∧
    ¬SendsExactly connectedClient [1, 2] [.sends 1, .sends (-1), .sends 2] (connectedClient.sendPost .sentData) 2
      [1, 1, 2] := by
  refine ⟨rfl, fun h => ?_⟩
  exact absurd h.took (by decide)

/-! ### The descriptor set -/

/-- What the socket does: whether it becomes writable before the `j`-th time out, and how many bytes it
takes at most if it is written to then -/
structure Peer where
  writable : Nat → Bool
  takes : Nat → Nat

/-- The loop with the descriptor set `fdSet` that `select` is given, from the `j`-th waiting period on.
`timed` says that `tp` is not `NULL`: without a time out, `select` waits through the period. -/
def sendLoopSelect (msg : List UInt8) (peer : Peer) (timed : Bool) : Nat → Nat → Bool → Sending → Option Sending
  | 0, _, _, _ => none
  | fuel + 1, j, fdSet, s =>
    if s.bytesSent < msg.length ∧ s.thisState ≠ .error then
      if fdSet ∧ peer.writable j then
        (sendRound msg s (.sends (min (peer.takes j) (msg.length - s.bytesSent) : Nat))).bind
          (sendLoopSelect msg peer timed fuel (j + 1) true)
      else if timed then
        (sendRound msg s .notReady).bind (sendLoopSelect msg peer timed fuel (j + 1) false)
      else sendLoopSelect msg peer timed fuel (j + 1) fdSet s
    else some s

section
variable {peer : Peer} {timed fdSet : Bool} {fuel j k : Nat}

theorem sendLoop_of_select (h : sendLoopSelect msg peer timed fuel j fdSet s = some s') :
    ∃ outs, sendLoop msg s outs = some s' := by
  induction fuel generalizing j fdSet s with
  | zero => cases h
  | succ fuel ih =>
    unfold sendLoopSelect at h
    split at h
    · next hc =>
      split at h
      · obtain ⟨s₁, hr, h⟩ := Option.bind_eq_some_iff.1 h
        obtain ⟨outs, houts⟩ := ih h
        exact ⟨_ :: outs, by rw [sendLoop, if_pos hc, hr]; exact houts⟩
      · split at h
        · obtain ⟨s₁, hr, h⟩ := Option.bind_eq_some_iff.1 h
          obtain ⟨outs, houts⟩ := ih h
          exact ⟨_ :: outs, by rw [sendLoop, if_pos hc, hr]; exact houts⟩
        · exact ih h
    · next hc =>
      cases h
      exact ⟨[], if_neg hc⟩

theorem sendLoopSelect_unset (hlt : s.bytesSent < msg.length) (hst : s.thisState ≠ .error) :
    sendLoopSelect msg peer timed fuel j false s = none := by
  induction fuel generalizing j s with
  | zero => rfl
  | succ fuel ih =>
    rw [sendLoopSelect, if_pos ⟨hlt, hst⟩, if_neg (by simp)]
    split
    · exact ih (s := { s with thisState := .timeout }) hlt nofun
    · exact ih hlt hst

theorem sendRound_min (hlen : msg.length < 2 ^ 32) (hlt : s.bytesSent < msg.length) (t : Nat) :
    ∃ s₁, sendRound msg s (.sends (min t (msg.length - s.bytesSent) : Nat)) = some s₁ ∧
      s₁.bytesSent = min (s.bytesSent + t) msg.length ∧ s₁.thisState ≠ .error := by
  refine ⟨_, if_pos ⟨by omega, by omega⟩, ?_, nofun⟩
  simp only [u32]
  omega

/-- The socket is writable in the periods `j, …, j + k - 1`, in which it takes the rest of the message. -/
def Drains (msg : List UInt8) (peer : Peer) (j k : Nat) (s : Sending) : Prop :=
  (∀ i, j ≤ i → i < j + k → peer.writable i = true) ∧
    msg.length ≤ s.bytesSent + ((List.range' j k).map peer.takes).sum

theorem Drains.ends (hlen : msg.length < 2 ^ 32) (h : Drains msg peer j k s) :
    ∃ fuel s', sendLoopSelect msg peer timed fuel j true s = some s' := by
  induction k generalizing j s with
  | zero =>
    have hdone : ¬(s.bytesSent < msg.length ∧ s.thisState ≠ .error) := by
      have hle := h.2
      simp only [List.range'_zero, List.map_nil, List.sum_nil] at hle
      omega
    exact ⟨1, s, by rw [sendLoopSelect, if_neg hdone]⟩
  | succ k ih =>
    by_cases hc : s.bytesSent < msg.length ∧ s.thisState ≠ .error
    · obtain ⟨hwritable, hle⟩ := h
      obtain ⟨s₁, hr, hb, -⟩ := sendRound_min hlen hc.1 (peer.takes j)
      rw [List.range'_succ, List.map_cons, List.sum_cons] at hle
      have hrest : Drains msg peer (j + 1) k s₁ :=
        ⟨fun i hi hik => hwritable i (by omega) (by omega), by rw [hb]; omega⟩
      obtain ⟨fuel, s', hs'⟩ := ih hrest
      refine ⟨fuel + 1, s', ?_⟩
      rw [sendLoopSelect, if_pos hc, if_pos ⟨rfl, hwritable j (by omega) (by omega)⟩, hr]
      exact hs'
    · exact ⟨1, s, by rw [sendLoopSelect, if_neg hc]⟩

/-- With time outs, a loop that ends had none. -/
theorem drains_of_ends (hlen : msg.length < 2 ^ 32) (hst : s.thisState ≠ .error)
    (h : sendLoopSelect msg peer true fuel j true s = some s') : ∃ k, Drains msg peer j k s := by
  induction fuel generalizing j s with
  | zero => cases h
  | succ fuel ih =>
    rcases Nat.lt_or_ge s.bytesSent msg.length with hlt | hge
    · rw [sendLoopSelect, if_pos ⟨hlt, hst⟩] at h
      by_cases hwritable : peer.writable j = true
      · rw [if_pos ⟨rfl, hwritable⟩] at h
        obtain ⟨s₁, hr, hb, hst₁⟩ := sendRound_min hlen hlt (peer.takes j)
        rw [hr] at h
        obtain ⟨k, hrest, hle⟩ := ih hst₁ h
        refine ⟨k + 1, fun i hi hik => ?_, ?_⟩
        · rcases Nat.eq_or_lt_of_le hi with rfl | hi
          · exact hwritable
          · exact hrest i hi (by omega)
        · rw [List.range'_succ, List.map_cons, List.sum_cons]
          omega
      · rw [if_neg (fun hc => hwritable hc.2), if_pos rfl] at h
        exact absurd (h.symm.trans (sendLoopSelect_unset (s := { s with thisState := .timeout }) hlt nofun)) nofun
    · exact ⟨0, fun i hi hik => by omega, Nat.le_trans hge (Nat.le_add_right ..)⟩

/-- Without time outs, every period brings the socket closer to being writable or takes a byte. -/
theorem ends_of_blocking {N : Nat} (hlen : msg.length < 2 ^ 32) (htakes : ∀ j, 1 ≤ peer.takes j)
    (hwritable : ∀ j, N ≤ j → peer.writable j = true) :
    ∃ fuel s', sendLoopSelect msg peer false fuel j true s = some s' := by
  induction hn : msg.length - s.bytesSent + (N - j) using Nat.strongRecOn generalizing j s with
  | ind n ih =>
    by_cases hc : s.bytesSent < msg.length ∧ s.thisState ≠ .error
    · by_cases hw : peer.writable j = true
      · obtain ⟨s₁, hr, hb, -⟩ := sendRound_min hlen hc.1 (peer.takes j)
        have hpos := htakes j
        obtain ⟨fuel, s', hs'⟩ := ih (msg.length - s₁.bytesSent + (N - (j + 1))) (by omega) rfl
        refine ⟨fuel + 1, s', ?_⟩
        rw [sendLoopSelect, if_pos hc, if_pos ⟨rfl, hw⟩, hr]
        exact hs'
      · have hj : j < N := Nat.lt_of_not_le fun hj => hw (hwritable j hj)
        obtain ⟨fuel, s', hs'⟩ := ih (msg.length - s.bytesSent + (N - (j + 1))) (by omega) rfl
        refine ⟨fuel + 1, s', ?_⟩
        rw [sendLoopSelect, if_pos hc, if_neg (fun h => hw h.2), if_neg (by simp)]
        exact hs'
    · exact ⟨1, s, by rw [sendLoopSelect, if_neg hc]⟩

end

/-- With a socket that is writable from some period on, the loop ends if and only if it is not entered,
`select` does not time out, or the whole message is taken before the first time out. -/
theorem sendLoopSelect_ends_iff (msg : List UInt8) (peer : Peer) (timed : Bool) (st : LisaState)
    (hlen : msg.length < 2 ^ 32) (htakes : ∀ j, 1 ≤ peer.takes j)
    (hwritable : ∃ N, ∀ j, N ≤ j → peer.writable j = true) :
    (∃ fuel s', sendLoopSelect msg peer timed fuel 0 true { bytesSent := 0, thisState := st, took := [] } = some s') ↔
      st = .error ∨ timed = false ∨
        ∃ m, (∀ j, j < m → peer.writable j = true) ∧ msg.length ≤ ((List.range m).map peer.takes).sum := by
  constructor
  · rintro ⟨fuel, s', h⟩
    by_cases hst : st = .error
    · exact .inl hst
    · cases timed with
      | false => exact .inr (.inl rfl)
      | true =>
        obtain ⟨m, hdrain, hle⟩ := drains_of_ends hlen hst h
        refine .inr (.inr ⟨m, fun j hj => hdrain j (Nat.zero_le _) (by omega), ?_⟩)
        rw [List.range_eq_range']
        simpa using hle
  · rintro (rfl | rfl | ⟨m, hdrain, hle⟩)
    · exact ⟨1, _, if_neg (by simp)⟩
    · obtain ⟨N, hN⟩ := hwritable
      exact ends_of_blocking hlen htakes hN
    · refine Drains.ends hlen (k := m) ⟨fun j _ hj => hdrain j (by omega), ?_⟩
      rw [← List.range_eq_range']
      simpa using hle

/-- Three bytes, two at a time, on a socket that is always writable -/
theorem sendLoopSelect_ends_iff_two :
    (∃ fuel s', sendLoopSelect [1, 2, 3] ⟨fun _ => true, fun _ => 2⟩ true fuel 0 true
        { bytesSent := 0, thisState := .connected, took := [] } = some s') ↔
      LisaState.connected = .error ∨ true = false ∨
        ∃ m, (∀ j, j < m → true = true) ∧ 3 ≤ ((List.range m).map fun _ => 2).sum :=
  sendLoopSelect_ends_iff [1, 2, 3] ⟨fun _ => true, fun _ => 2⟩ true .connected (by decide) (fun _ => Nat.le_succ 1)
    ⟨0, fun _ _ => rfl⟩

/-- A single time out, before the socket becomes writable for good -/
theorem not_sendLoopSelect_ends :
    ¬∃ fuel s', sendLoopSelect [1] ⟨fun j => decide (1 ≤ j), fun _ => 1⟩ true fuel 0 true
      { bytesSent := 0, thisState := .connected, took := [] } = some s' := by
  rintro ⟨fuel, s', h⟩
  cases fuel with
  | zero => cases h
  | succ fuel =>
    have hnone : sendLoopSelect [1] ⟨fun j => decide (1 ≤ j), fun _ => 1⟩ true fuel 1 false
        { bytesSent := 0, thisState := .timeout, took := [] } = none :=
      sendLoopSelect_unset (by decide) nofun
    exact absurd (hnone.symm.trans h) nofun

end Lisa
end WlanxVms
