import WlanxVms.Lisa

/-!
# What a `lisa_send` sends

The bytes that the socket took are the first `bytes_sent` of the message while nothing fails, and
`bytes_sent` is the sum of the results of `send`, modulo 2^32, in any case.
-/

namespace WlanxVms
namespace Lisa
variable {l l' : Lisa} {msg : List UInt8} {rc : Int} {took : List UInt8}

@[simp] theorem sendPost_fd (l : Lisa) (st : LisaState) : (l.sendPost st).fd = l.fd := by
  unfold sendPost; split <;> rfl

@[simp] theorem sendPost_clsvr (l : Lisa) (st : LisaState) : (l.sendPost st).clsvr = l.clsvr := by
  unfold sendPost; split <;> rfl

theorem lisaSend_frame {outs : List SendOutcome} (h : l.lisaSend msg outs = some (l', rc, took)) :
    l'.fd = l.fd ∧ l'.clsvr = l.clsvr := by
  unfold lisaSend at h
  split at h
  · split at h
    · cases h; exact ⟨rfl, rfl⟩
    · cases h
  · obtain ⟨r, -, hr⟩ := Option.map_eq_some_iff.1 h
    cases hr
    exact ⟨sendPost_fd .., sendPost_clsvr ..⟩

theorem state_sendPost (l : Lisa) (st : LisaState) : (l.sendPost st).state = l.state ∨ (l.sendPost st).state = st := by
  unfold Lisa.sendPost; split
  · exact .inr rfl
  · exact .inl rfl

theorem sendPre_socket {c : SendCall} (hcl : l.clsvr ≠ .client) (h : l.sendPre = some c) : c.thisSocket = l.clientFd := by
  obtain ⟨-, h⟩ := Option.ite_none_left_eq_some.1 h
  cases h
  exact if_neg hcl

theorem sendPre_call {c : SendCall} (h : l.sendPre = some c) :
    c.thisType = l.type ∧
      (l.state ≠ .accepted ∧ c.thisState = l.state ∨ l.state = .accepted ∧ c.thisState = l.clientState) := by
  obtain ⟨-, h⟩ := Option.ite_none_left_eq_some.1 h
  cases h
  refine ⟨rfl, ?_⟩
  by_cases hacc : l.state = .accepted
  · exact .inr ⟨hacc, if_neg (not_not_intro hacc)⟩
  · exact .inl ⟨hacc, if_pos hacc⟩

theorem sendLoop_done {outs : List SendOutcome} {s s' : Sending}
    (hdone : ¬(s.bytesSent < msg.length ∧ s.thisState ≠ .error)) (h : sendLoop msg s outs = some s') : s' = s := by
  cases outs with
  | nil => exact (Option.some.inj (Option.ite_none_left_eq_some.1 h).2).symm
  | cons o os => exact absurd (Option.ite_none_right_eq_some.1 h).1 hdone

/-- A send of some bytes ends in error or with data sent: a time out does not end the loop. -/
theorem sendLoop_thisState {outs : List SendOutcome} {s s' : Sending} (hlt : s.bytesSent < msg.length)
    (h : sendLoop msg s outs = some s') : s'.thisState = .error ∨ s'.thisState = .sentData := by
  induction outs generalizing s with
  | nil =>
    obtain ⟨hend, h⟩ := Option.ite_none_left_eq_some.1 h
    cases h
    exact .inl (Decidable.not_not.1 fun hne => hend ⟨hlt, hne⟩)
  | cons o os ih =>
    obtain ⟨-, h⟩ := Option.ite_none_right_eq_some.1 h
    obtain ⟨s₁, hr, h⟩ := Option.bind_eq_some_iff.1 h
    cases o with
    | notReady =>
      cases hr
      refine ih ?_ h
      exact hlt
    | notSet =>
      cases hr
      rw [sendLoop_done (fun hc => hc.2 rfl) h]
      exact .inl rfl
    | sends rc =>
      obtain ⟨-, hr⟩ := Option.ite_none_right_eq_some.1 hr
      cases hr
      rcases Nat.lt_or_ge (u32 (s.bytesSent + rc)) msg.length with hlt' | hge
      · exact ih hlt' h
      · rw [sendLoop_done (fun hc => Nat.not_lt.2 hge hc.1) h]
        exact .inr rfl

theorem sendBody_thisState {c : SendCall} {outs : List SendOutcome} {r : SendResult} (hmsg : msg ≠ [])
    (h : sendBody c msg outs = some r) : r.thisState = .error ∨ r.thisState = .sentData := by
  unfold sendBody at h
  split at h
  · obtain ⟨s, hs, rfl⟩ := Option.map_eq_some_iff.1 h
    have hst := sendLoop_thisState (List.length_pos_iff.2 hmsg) hs
    simp only
    split
    · exact .inl rfl
    · exact hst
  · split at h
    · obtain ⟨-, h⟩ := Option.ite_none_right_eq_some.1 h
      cases h
      simp only
      split
      · exact .inl rfl
      · exact .inr rfl
    · cases h

/-- The bytes taken so far are the first `bytes_sent` of the message. -/
structure Took (msg : List UInt8) (s : Sending) : Prop where
  bytesSent : s.bytesSent ≤ msg.length
  took : s.took = msg.take s.bytesSent

theorem Took.round {s s' : Sending} {o : SendOutcome} (hlen : msg.length < 2 ^ 32) (h : Took msg s) (ho : o.ok = true)
    (hr : sendRound msg s o = some s') :
    Took msg s' ∧ s'.bytesSent = s.bytesSent + o.accepted ∧ s'.thisState ≠ .error := by
  obtain ⟨hle, htook⟩ := h
  cases o with
  | notReady => cases hr; exact ⟨⟨hle, htook⟩, rfl, nofun⟩
  | notSet => cases ho
  | sends rc =>
    have hrc : 0 ≤ rc := by simpa [SendOutcome.ok] using ho
    obtain ⟨⟨-, hmax⟩, hr⟩ := Option.ite_none_right_eq_some.1 hr
    cases hr
    have hsum : u32 (s.bytesSent + rc) = s.bytesSent + rc.toNat := by unfold u32; omega
    refine ⟨⟨?_, ?_⟩, hsum, nofun⟩
    · show u32 (s.bytesSent + rc) ≤ _
      omega
    · show s.took ++ _ = msg.take (u32 (s.bytesSent + rc))
      rw [htook, hsum, List.take_add]

theorem Took.loop {outs : List SendOutcome} {s s' : Sending} (hlen : msg.length < 2 ^ 32) (h : Took msg s)
    (hok : outs.all SendOutcome.ok = true) (hs : sendLoop msg s outs = some s') :
    Took msg s' ∧ s'.bytesSent = s.bytesSent + (outs.map SendOutcome.accepted).sum ∧
      (s.thisState ≠ .error → s'.thisState ≠ .error ∧ s'.bytesSent = msg.length) := by
  induction outs generalizing s with
  | nil =>
    obtain ⟨hend, hs⟩ := Option.ite_none_left_eq_some.1 hs
    obtain rfl := Option.some.inj hs
    refine ⟨h, rfl, fun hne => ⟨hne, ?_⟩⟩
    have hle := h.bytesSent
    have hge : ¬s.bytesSent < msg.length := fun hlt => hend ⟨hlt, hne⟩
    omega
  | cons o os ih =>
    obtain ⟨-, hs⟩ := Option.ite_none_right_eq_some.1 hs
    obtain ⟨s₁, hr, hs⟩ := Option.bind_eq_some_iff.1 hs
    rw [List.all_cons, Bool.and_eq_true] at hok
    obtain ⟨h₁, hb, hst⟩ := h.round hlen hok.1 hr
    obtain ⟨h', hb', hst'⟩ := ih h₁ hok.2 hs
    refine ⟨h', ?_, fun _ => hst' hst⟩
    rw [hb', hb, List.map_cons, List.sum_cons, Nat.add_assoc]

/-- `bytes_sent` is the sum of what `send` returned; the loop ends as soon as that is below zero. -/
theorem sendLoop_result {outs : List SendOutcome} {s s' : Sending} {p : Int} (hlen : msg.length < 2 ^ 31)
    (hset : outs.all SendOutcome.isSet = true) (hb : s.bytesSent = u32 p) (hp : -1 ≤ p ∧ p ≤ msg.length)
    (hst : s.thisState ≠ .error) (h : sendLoop msg s outs = some s') :
    s'.thisState ≠ .error ∧ s'.bytesSent = u32 (p + (outs.map SendOutcome.result).sum) ∧
      -1 ≤ p + (outs.map SendOutcome.result).sum ∧ p + (outs.map SendOutcome.result).sum ≤ msg.length := by
  induction outs generalizing s p with
  | nil =>
    obtain ⟨-, h⟩ := Option.ite_none_left_eq_some.1 h
    obtain rfl := Option.some.inj h
    rw [List.map_nil, List.sum_nil, Int.add_zero]
    exact ⟨hst, hb, hp⟩
  | cons o os ih =>
    obtain ⟨⟨hlt, -⟩, h⟩ := Option.ite_none_right_eq_some.1 h
    obtain ⟨s₁, hr, h⟩ := Option.bind_eq_some_iff.1 h
    rw [List.all_cons, Bool.and_eq_true] at hset
    rw [List.map_cons, List.sum_cons, ← Int.add_assoc]
    -- the loop was entered, so `bytes_sent` has not wrapped around yet
    have hnat : (s.bytesSent : Int) = p := by rw [hb] at hlt ⊢; unfold u32 at hlt ⊢; omega
    cases o with
    | notReady =>
      cases hr
      rw [show SendOutcome.notReady.result = 0 from rfl, Int.add_zero]
      refine ih hset.2 ?_ hp ?_ h
      · exact hb
      · nofun
    | notSet => exact absurd hset.1 (by decide)
    | sends rc =>
      obtain ⟨⟨hmin, hmax⟩, hr⟩ := Option.ite_none_right_eq_some.1 hr
      cases hr
      rw [show (SendOutcome.sends rc).result = rc from rfl]
      refine ih hset.2 ?_ ?_ ?_ h
      · show u32 (s.bytesSent + rc) = u32 (p + rc)
        rw [hnat]
      · omega
      · nofun

theorem sendBody_error {c : SendCall} {outs : List SendOutcome} {r : SendResult} (hlen : msg.length < 2 ^ 31)
    (hset : outs.all SendOutcome.isSet = true) (h : sendBody c msg outs = some r) (herr : r.thisState = .error) :
    c.thisState = .error ∨ (outs.map SendOutcome.result).sum < 0 := by
  by_cases hst : c.thisState = .error
  · exact .inl hst
  · refine .inr (Int.not_le.1 fun hsum => ?_)
    unfold sendBody at h
    split at h
    · obtain ⟨s, hs, rfl⟩ := Option.map_eq_some_iff.1 h
      obtain ⟨hne, hb, -, hmax⟩ := sendLoop_result hlen hset (show 0 = u32 0 from rfl) ⟨by decide, by omega⟩ hst hs
      rw [Int.zero_add] at hb hmax
      have hpos : ¬asInt s.bytesSent < 0 := by rw [hb]; unfold asInt u32; omega
      simp only [if_neg hpos] at herr
      exact hne herr
    · split at h
      · next rc =>
        obtain ⟨-, h⟩ := Option.ite_none_right_eq_some.1 h
        cases h
        have hrc : ¬rc < 0 := by simpa [SendOutcome.result] using hsum
        simp only [if_neg hrc] at herr
        cases herr
      · cases h

theorem sendBody_full {c : SendCall} {outs : List SendOutcome} {r : SendResult} (hlen : msg.length < 2 ^ 32)
    (htcp : c.thisType = .tcp) (hst : c.thisState ≠ .error) (hok : outs.all SendOutcome.ok = true)
    (h : sendBody c msg outs = some r) : r.took = msg := by
  unfold sendBody at h
  rw [if_pos htcp] at h
  obtain ⟨s, hs, rfl⟩ := Option.map_eq_some_iff.1 h
  have h₀ : Took msg { bytesSent := 0, thisState := c.thisState, took := [] } := ⟨Nat.zero_le _, rfl⟩
  obtain ⟨h', -, hfull⟩ := h₀.loop hlen hok hs
  show s.took = msg
  rw [h'.took, (hfull hst).2, List.take_length]

theorem sendBody_took {c : SendCall} {outs : List SendOutcome} {r : SendResult} (hlen : msg.length < 2 ^ 32)
    (hok : outs.all SendOutcome.ok = true) (hsum : (outs.map SendOutcome.accepted).sum = msg.length)
    (h : sendBody c msg outs = some r) : r.took = msg := by
  unfold sendBody at h
  split at h
  · obtain ⟨s, hs, rfl⟩ := Option.map_eq_some_iff.1 h
    have h₀ : Took msg { bytesSent := 0, thisState := c.thisState, took := [] } := ⟨Nat.zero_le _, rfl⟩
    obtain ⟨h', hb, -⟩ := h₀.loop hlen hok hs
    show s.took = msg
    rw [h'.took, hb, hsum, List.take_of_length_le (by omega)]
  · split at h
    · next rc =>
      obtain ⟨-, hs⟩ := Option.ite_none_right_eq_some.1 h
      cases hs
      have hrc : rc.toNat = msg.length := by simpa [SendOutcome.accepted] using hsum
      show msg.take rc.toNat = msg
      rw [hrc, List.take_length]
    · cases h

theorem lisaSend_nil {outs : List SendOutcome} (h : l.lisaSend [] outs = some (l', rc, took)) : took = [] := by
  unfold lisaSend at h
  split at h
  · split at h
    · cases h; rfl
    · cases h
  · obtain ⟨r, hbody, hr⟩ := Option.map_eq_some_iff.1 h
    cases hr
    unfold sendBody at hbody
    split at hbody
    · obtain ⟨s, hs, rfl⟩ := Option.map_eq_some_iff.1 hbody
      cases outs with
      | nil =>
        obtain ⟨-, hs⟩ := Option.ite_none_left_eq_some.1 hs
        cases hs; rfl
      | cons o os => cases hs
    · split at hbody
      · obtain ⟨-, hs⟩ := Option.ite_none_right_eq_some.1 hbody
        cases hs
        exact List.take_nil
      · cases hbody

theorem lisaCast_rc {outs : List (List SendOutcome)} {sends : List (Int × List UInt8)}
    (h : l.lisaCast msg outs = some (l', rc, sends)) : rc = msg.length := by
  unfold lisaCast at h
  split at h
  · split at h
    · obtain ⟨r, -, hr⟩ := Option.map_eq_some_iff.1 h
      cases hr; rfl
    · cases h
  · obtain ⟨r, -, hr⟩ := Option.map_eq_some_iff.1 h
    cases hr; rfl

theorem lisaCast_client {outs : List (List SendOutcome)} {sends : List (Int × List UInt8)} (hc : l.clsvr = .client)
    (h : l.lisaCast msg outs = some (l', rc, sends)) :
    l'.fd = l.fd ∧ l'.clsvr = .client ∧
      ∃ o rc' took, outs = [o] ∧ l.lisaSend msg o = some (l', rc', took) ∧ sends = [(l.fd, took)] := by
  unfold lisaCast at h
  rw [if_pos hc] at h
  split at h
  · next o =>
    obtain ⟨⟨l₁, rc₁, took⟩, hsend, hr⟩ := Option.map_eq_some_iff.1 h
    cases hr
    obtain ⟨hfd, hcl⟩ := lisaSend_frame hsend
    exact ⟨hfd, hcl.trans hc, o, rc₁, took, rfl, hsend, rfl⟩
  · cases h

end Lisa
end WlanxVms
